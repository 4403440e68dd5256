import SchedulerComparison.Hackbench.Conservation
import SchedulerComparison.Hackbench.Faultless

/-!
# Hackbench as a whole

`main` and its workers (`Hackbench.Main`) together with the loops that the workers run on the pipes
of their groups (`Hackbench.Packets`). The workers are numbered in the order in which they are
forked, so that `num_fds` receivers and `num_fds` senders in a row make a group. A worker is in its
loop while it is running, and exits when its function has returned.

A run of the whole is a run of `main` and its workers (`reach_procs`), where a loop that writes for
the first time is their `Event.data`, and in each group a run of its senders and receivers
(`reach_group`). It is meant for the runs in which nothing fails: what a loop does at the end of a
pipe is left out in `Hackbench.Packets`.
-/

open Transition

namespace Hackbench

/-- What `process_options` has set, and the size of a pipe. -/
structure Setup where
  options : Options
  params : Packets.Params
  numFds_eq : params.numFds = options.numFds

namespace Setup

/-- `num_fds`. -/
def fds (u : Setup) : Nat := u.options.numFds.toNat

/-- The group of worker `k`. -/
def groupOf (u : Setup) (k : Nat) : Nat := k / (2 * u.fds)

/-- The place of worker `k` in its group: the receivers come first. -/
def placeOf (u : Setup) (k : Nat) : Nat := k % (2 * u.fds)

/-- What worker `k` was created to run. -/
def funcOf (u : Setup) (k : Nat) : Func := if u.placeOf k < u.fds then .receiver else .sender

/-- A step of worker `k` in its loop, with `n` bytes if it reads or writes. -/
def loopEvent (u : Setup) (k n : Nat) : Packets.Event :=
  match u.funcOf k with
  | .receiver => .receiver (u.placeOf k) n
  | .sender => .sender (u.placeOf k - u.fds) n

end Setup

/-- A sender is at its `write`. -/
def Packets.SenderPoint.writes : Packets.SenderPoint → Bool
  | .write _ _ _ => true
  | _ => false

/-- The function of the worker at a place of a group has returned. -/
def Packets.Group.Returned (fds : Nat) (g : Packets.Group) (place : Nat) : Prop :=
  if place < fds then g.receivers place = .left else g.senders (place - fds) = .returned

/-- A sender or receiver at a place of a group is about to write. -/
def Packets.Group.writes (fds : Nat) (g : Packets.Group) (place : Nat) : Bool :=
  if place < fds then false else (g.senders (place - fds)).writes

/-- `main` with its workers, and the groups. -/
structure System where
  procs : State
  groups : Nat → Packets.Group

/-- What can happen next: to `main` or a worker, or in the loop of worker `k`, which reads or writes
`n` bytes if it is at a `read` or a `write`. -/
inductive SystemEvent where
  | proc (e : Event)
  | loop (k n : Nat)

instance (fds : Nat) (g : Packets.Group) (place : Nat) : Decidable (g.Returned fds place) := by
  unfold Packets.Group.Returned
  infer_instance

namespace System

/-- Worker `k` has returned from its function. -/
def Returned (u : Setup) (s : System) (k : Nat) : Prop :=
  (s.groups (u.groupOf k)).Returned u.fds (u.placeOf k)

instance (u : Setup) (s : System) (k : Nat) : Decidable (s.Returned u k) :=
  inferInstanceAs (Decidable (Packets.Group.Returned _ _ _))

/-- Worker `k` writes to a pipe next. -/
def writes (u : Setup) (s : System) (k : Nat) : Bool :=
  (s.groups (u.groupOf k)).writes u.fds (u.placeOf k)

/-- The processes after a step of worker `k` in its loop. -/
def looped (u : Setup) (s : System) (k : Nat) : State :=
  if s.writes u k then { s.procs with dataWritten := true } else s.procs

/-- One step of hackbench. Data is written in the loops, and a worker exits when it has returned. -/
def step (u : Setup) (s : System) : SystemEvent → Option System
  | .proc (.data _) => none
  | .proc (.exit k) =>
    if s.Returned u k then
      (Hackbench.step u.options s.procs (.exit k)).map fun procs => { s with procs }
    else none
  | .proc e => (Hackbench.step u.options s.procs e).map fun procs => { s with procs }
  | .loop k n =>
    if k < s.procs.forked ∧ (s.procs.workers k).phase = .running then
      (Packets.step .hackbench u.params (s.groups (u.groupOf k)) (u.loopEvent k n)).map fun g =>
        { procs := s.looped u k, groups := Function.update s.groups (u.groupOf k) g }
    else none

/-- `main` just after `setjmp` has returned `0`, and all loops at their start. -/
def start : System := ⟨Hackbench.start, fun _ => Packets.init⟩

end System

/-- No call fails, no worker fails, and nobody is sent a signal. -/
def SystemNoFault (s : System) : SystemEvent → Prop
  | .proc e => NoFault s.procs e
  | .loop _ _ => True

instance (s : System) : ∀ e, Decidable (SystemNoFault s e)
  | .proc e => inferInstanceAs (Decidable (NoFault s.procs e))
  | .loop _ _ => .isTrue trivial

/-! ## What a step does -/

/-- The moves of the whole: one of `main` and its workers, in which a worker that exits has
returned, or one in the loop of a running worker. -/
inductive SystemMoves (u : Setup) (s : System) : SystemEvent → System → Prop
  | proc {e : Event} {procs : State} (hs : Hackbench.step u.options s.procs e = some procs)
      (hexit : ∀ k, e = .exit k → s.Returned u k) : SystemMoves u s (.proc e) { s with procs }
  | loop {k n : Nat} {g : Packets.Group} (hk : k < s.procs.forked)
      (hx : (s.procs.workers k).phase = .running)
      (hg : Packets.step .hackbench u.params (s.groups (u.groupOf k)) (u.loopEvent k n) = some g) :
      SystemMoves u s (.loop k n)
        { procs := s.looped u k, groups := Function.update s.groups (u.groupOf k) g }

section
variable {u : Setup} {s s' : System} {e : SystemEvent}

/-- The steps of the whole are these moves. -/
theorem systemMoves_of_step (hs : s.step u e = some s') : SystemMoves u s e s' := by
  unfold System.step at hs
  split at hs
  · cases hs
  · next k =>
    split at hs
    · next hret =>
      obtain ⟨procs, hprocs, rfl⟩ := Option.map_eq_some_iff.1 hs
      refine .proc hprocs fun j hj => ?_
      cases hj
      exact hret
    · cases hs
  · next hexit =>
    obtain ⟨procs, hprocs, rfl⟩ := Option.map_eq_some_iff.1 hs
    exact .proc hprocs fun k hk => absurd hk (hexit k)
  · split at hs
    · next hk =>
      obtain ⟨g, hg, rfl⟩ := Option.map_eq_some_iff.1 hs
      exact .loop hk.1 hk.2 hg
    · cases hs

/-! ## The workers and their functions -/

/-- What `main` forks next. -/
def MainPoint.forksAs : MainPoint → Option Func
  | .receiverFork _ _ => some .receiver
  | .senderFork _ _ => some .sender
  | _ => none

/-- The functions of the workers are the same in two states. -/
def SameFuncs (p p' : State) : Prop :=
  p'.forked = p.forked ∧ ∀ k, (p'.workers k).func = (p.workers k).func

theorem func_setPhase (p : State) (k i : Nat) (x : Phase) :
    ((p.setPhase k x).workers i).func = (p.workers i).func := by
  rw [State.workers_setPhase]
  split
  · next hi => rw [hi]
  · rfl

theorem func_sendTerm (p : State) (pid : Int) (i : Nat) :
    ((p.sendTerm pid).workers i).func = (p.workers i).func := by
  unfold State.sendTerm
  dsimp only
  split <;> rfl

/-- What a statement of `main` does to the workers: nothing, or it sends SIGTERM, forks one, or
waits for one. -/
inductive WorkersMove (p p' : State) : Prop
  | same (hf : p'.forked = p.forked) (hw : p'.workers = p.workers)
  | term {pid : Int} (hf : p'.forked = p.forked) (hw : p'.workers = (p.sendTerm pid).workers)
  | fork {func : Func} {ret : Int} (hl : p.point.forksAs = some func)
      (hf : p'.forked = p.forked + 1)
      (hw : p'.workers = Function.update p.workers p.forked { pid := ret, func := func })
  | reap {i : Nat} (hx : (p.workers i).phase = .zombie) (hf : p'.forked = p.forked)
      (hw : p'.workers = (p.setPhase i .reaped).workers)

/-- The statements of `main` are these moves for the workers, and write no data. -/
theorem workersMove_main {o : Options} {p p' : State} {ret : Int}
    (hs : mainStep o p ret = some p') : WorkersMove p p' ∧ p'.dataWritten = p.dataWritten := by
  have hfork : ∀ {func : Func} {l : Int → MainPoint}, p.point.forksAs = some func →
      p.fork func ret l = some p' → WorkersMove p p' ∧ p'.dataWritten = p.dataWritten := by
    intro func l hl h
    obtain ⟨-, rfl⟩ | ⟨-, -, -, rfl⟩ := State.fork_cases h
    · exact ⟨.same rfl rfl, rfl⟩
    · exact ⟨.fork hl rfl rfl, rfl⟩
  cases hp : p.point <;> simp only [mainStep, hp] at hs
  case receiverFork | senderFork => exact hfork (by rw [hp]; rfl) hs
  case receiverStore | senderStore =>
    obtain ⟨-, rfl⟩ := State.store_cases hs
    exact ⟨.same rfl rfl, rfl⟩
  case readReady =>
    split at hs
    · split at hs <;> cases hs
      exact ⟨.same rfl rfl, rfl⟩
    · cases hs
      exact ⟨.same rfl rfl, rfl⟩
  case kill =>
    split at hs
    · split at hs <;> cases hs
      exact ⟨.term rfl rfl, rfl⟩
    · cases hs
      exact ⟨.same rfl rfl, rfl⟩
  case wake | reap | freeTab =>
    split at hs <;> cases hs <;> exact ⟨.same rfl rfl, rfl⟩
  case wait =>
    obtain ⟨-, -, rfl⟩ | ⟨i, -, -, hx, rfl⟩ := State.waitWorker_cases hs
    · exact ⟨.same rfl rfl, rfl⟩
    · exact ⟨.reap hx rfl rfl, rfl⟩
  case exited => cases hs
  all_goals
    cases hs
    exact ⟨.same rfl rfl, rfl⟩

/-- A step leaves the functions of the workers, or it forks a worker. -/
theorem func_step {o : Options} {p p' : State} {e : Event} (hs : Hackbench.step o p e = some p') :
    SameFuncs p p' ∨ ∃ func, p.point.forksAs = some func ∧ p'.forked = p.forked + 1 ∧
      ∀ k, (p'.workers k).func = if k = p.forked then func else (p.workers k).func := by
  cases moves_of_step hs with
  | caught | ignored | data => exact .inl ⟨rfl, fun _ => rfl⟩
  | ready | woken | exit | fail | term => exact .inl ⟨rfl, fun i => func_setPhase p _ i _⟩
  | main hs =>
    cases (workersMove_main hs).1 with
    | same hf hw => exact .inl ⟨hf, fun k => by rw [hw]⟩
    | term hf hw => exact .inl ⟨hf, fun k => by rw [hw, func_sendTerm]⟩
    | reap hx hf hw => exact .inl ⟨hf, fun k => by rw [hw, func_setPhase]⟩
    | @fork func ret hl hf hw =>
      refine .inr ⟨func, hl, hf, fun k => ?_⟩
      rw [hw]
      split
      · next hk => rw [hk, Function.update_self]
      · next hk => rw [Function.update_of_ne hk]

/-- Where nothing fails and `2 * num_fds` does not wrap, the workers of a group are numbered one
after the other, its receivers first. -/
theorem func_eq (hw : 2 * u.fds < 2 ^ 32) {p : State}
    (h : Reach (Hackbench.step u.options) NoFault Hackbench.start p) :
    ∀ k < p.forked, (p.workers k).func = u.funcOf k := by
  induction h with
  | refl => exact fun k hk => absurd hk (Nat.not_lt_zero k)
  | @tail p p' e hr hC hs ih =>
    intro k hk
    obtain ⟨hforked, hsame⟩ | ⟨func, hl, hforked, hfunc⟩ := func_step hs
    · rw [hsame]
      exact ih k (hforked ▸ hk)
    · rw [hfunc]
      split
      · next hkp =>
        -- `main` is in group `i`, whose first worker is number `i * (2 * num_fds)`
        have hat := (reach_inv hr).at_point
        have hgate := reach_gate hr
        have hfds : 0 < u.fds := numFds_pos u.options
        cases hp : p.point <;> rw [hp] at hl hat hgate <;> cases hl
        case receiverFork i j =>
          obtain ⟨hj, hb⟩ := hat
          have hbase : p.totalChildren.toNat = i.toNat * (2 * u.fds) := hgate.2.1
          have hcount : p.forked = p.totalChildren.toNat + j.toNat := hb.exact hw
          have hj : j.toNat < u.fds := hj
          have hplace : u.placeOf k = j.toNat := by
            rw [Setup.placeOf, hkp, hcount, hbase, Nat.mul_add_mod']
            exact Nat.mod_eq_of_lt (by omega)
          rw [Setup.funcOf, hplace, if_pos hj]
        case senderFork i j =>
          obtain ⟨hj, hb⟩ := hat
          have hbase : p.totalChildren.toNat = i.toNat * (2 * u.fds) := hgate.2.1
          have hcount : p.forked = p.totalChildren.toNat + (u.fds + j.toNat) := hb.exact hw
          have hj : j.toNat < u.fds := hj
          have hplace : u.placeOf k = u.fds + j.toNat := by
            rw [Setup.placeOf, hkp, hcount, hbase, Nat.mul_add_mod']
            exact Nat.mod_eq_of_lt (by omega)
          rw [Setup.funcOf, hplace, if_neg (by omega)]
      · next hkp => exact ih k (by omega)

/-! ## The parts of a run -/

/-- A receiver writes to no pipe. -/
theorem funcOf_of_writes {k : Nat} (h : s.writes u k = true) : u.funcOf k = .sender := by
  unfold System.writes Packets.Group.writes at h
  split at h
  · cases h
  · next hplace => exact if_neg hplace

/-- A worker that is running was created for its place in its group. -/
theorem func_of_running {p : State} {k : Nat}
    (h : Reach (Hackbench.step u.options) NoFault Hackbench.start p) (hk : k < p.forked)
    (hx : (p.workers k).phase = .running) : (p.workers k).func = u.funcOf k := by
  obtain ⟨n, hclosed⟩ | hopen := (reach_gate h).cases
  · exact absurd hx (hclosed.not_running hk)
  · exact func_eq (fds_lt ((reach_faultless h).fits_of_open hopen)) h k hk

/-- Where nothing fails, a run of the whole is one of `main` and its workers. -/
theorem reach_procs (h : Reach (System.step u) SystemNoFault System.start s) :
    Reach (Hackbench.step u.options) NoFault Hackbench.start s.procs := by
  induction h with
  | refl => exact .refl
  | tail hr hC hs ih =>
    cases systemMoves_of_step hs with
    | proc hprocs => exact ih.tail hC hprocs
    | @loop k n g hk hx hg =>
      show Reach _ _ _ (System.looped u _ k)
      unfold System.looped
      split
      · next hwrites =>
        have hfunc := (func_of_running ih hk hx).trans (funcOf_of_writes hwrites)
        exact ih.tail (e := .data k) trivial (if_pos ⟨hk, hx, hfunc⟩)
      · exact ih

/-- A run of the whole is in each group one of its senders and receivers. -/
theorem reach_group {C : System → SystemEvent → Prop} (h : Reach (System.step u) C System.start s)
    (i : Nat) : Reach (Packets.step .hackbench u.params) Free Packets.init (s.groups i) := by
  induction h with
  | refl => exact .refl
  | @tail s s' e hr hC hs ih =>
    cases systemMoves_of_step hs with
    | proc => exact ih
    | @loop k n g hk hx hg =>
      show Reach _ _ _ (Function.update s.groups (u.groupOf k) g i)
      by_cases hi : i = u.groupOf k
      · subst hi
        rw [Function.update_self]
        exact ih.tail trivial hg
      · rw [Function.update_of_ne hi]
        exact ih

end

end Hackbench
