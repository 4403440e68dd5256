import Mathlib.Data.List.AList
import SchedulerComparison.Lib.Transition

/-!
# Processes: fork, exec, wait, kill and exit

A program is a function `code : L → Call L Img Out` from its control points to what a process
at that point asks of the kernel; a control point carries the local variables, and the call
says where the process continues with each answer. A forked child starts at a control point of
the same program, with its own copy of the variables, and leaves the program only by a
successful `execl`, which turns it into an opaque image, or by exiting.

The kernel's answers are the machine's events: `Event.call p ret` lets process `p` make its
call and gives it the return value `ret`. An image exits whenever the environment says so
(`Event.exit`), a process that was sent SIGTERM may die of it (`Event.term`), and any amount of
time can pass between two events of processes (`Event.pass`), in a sleep as in an image. Every
event takes some time, so that `clock` also orders events.

The process table keeps the processes that are gone: what is proved about a process after it
was reaped reads it there. The calls that were made are kept in their order as well.
-/

namespace Posix

/-- What a process asks of the kernel at a control point, and where it continues. -/
inductive Call (L Img Out : Type) where
  /-- `fork()` returns the child's pid in the parent, `0` in the child, `-1` on failure. -/
  | fork (k : Int → L)
  /-- `execl` returns only on failure. -/
  | execl (img : Img) (k : L)
  /-- `wait(NULL)` returns the pid of a child that has exited, `-1` when there is no child. -/
  | wait (k : Int → L)
  /-- `kill(target, SIGTERM)`. -/
  | kill (target : Int) (k : L)
  | exit (status : Int)
  /-- A reading of the steady clock. -/
  | now (k : Nat → L)
  | print (out : Out) (k : L)
  /-- A call that may succeed (`true`) or fail, without an effect on other processes. -/
  | attempt (k : Bool → L)
  /-- A call that throws when it fails. Nothing catches the exception, and the process aborts. -/
  | throws (k : L)
  /-- A local step, or a sleep, for which time passes. -/
  | skip (k : L)
  /-- A step without a meaning in the language, such as signed overflow. -/
  | undefined

/-- The call of a component program, with its control points placed among those of the whole. -/
def Call.map {L M Img Out : Type} (f : L → M) : Call L Img Out → Call M Img Out
  | .fork k => .fork fun pid => f (k pid)
  | .execl img k => .execl img (f k)
  | .wait k => .wait fun pid => f (k pid)
  | .kill target k => .kill target (f k)
  | .exit status => .exit status
  | .now k => .now fun t => f (k t)
  | .print out k => .print out (f k)
  | .attempt k => .attempt fun ok => f (k ok)
  | .throws k => .throws (f k)
  | .skip k => .skip (f k)
  | .undefined => .undefined

/-- How a process ended. -/
inductive Status where
  | exited (code : Int)
  | signaled (sig : Nat)
  deriving DecidableEq

/-- The life of a process: in the program's code, in the image it executed, exited and not yet
waited for, and waited for. The last two keep what it executed, its status and the times. -/
inductive Life (L Img : Type) where
  | code (l : L)
  | image (img : Img)
  | zombie (img : Option Img) (status : Status) (exitedAt : Nat)
  | reaped (img : Option Img) (status : Status) (exitedAt reapedAt : Nat)

/-- A process of the table. `origin` is the control point its parent forked it at. -/
structure Proc (L Img : Type) where
  ppid : Int
  origin : Option L
  forkedAt : Nat
  life : Life L Img

/-- A `kill(target, SIGTERM)` that was executed. -/
structure Kill where
  sender : Int
  target : Int
  sentAt : Nat

/-- A printed item, with the process and the control point it was printed at. -/
structure Printed (L Out : Type) where
  pid : Int
  point : L
  out : Out

/-- A call that was made: by which process, at which control point, what it returned, and when. -/
structure Made (L : Type) where
  pid : Int
  point : L
  ret : Int
  madeAt : Nat

/-- The processes, the time, and what was printed, signalled and called so far. -/
structure Sys (L Img Out : Type) where
  procs : AList fun _ : Int => Proc L Img
  clock : Nat
  printed : List (Printed L Out)
  kills : List Kill
  calls : List (Made L)

/-- What the environment decides: the value a call returns, when a process ends, and how much time
passes. -/
inductive Event where
  | call (p ret : Int)
  | exit (p : Int) (status : Status)
  | term (p : Int)
  | pass (time : Nat)

section
variable {L Img Out : Type}

/-- The process has been waited for. -/
def Life.isReaped : Life L Img → Bool
  | .reaped .. => true
  | _ => false

/-- When the process exited, if it has. -/
def Life.exitedAt? : Life L Img → Option Nat
  | .zombie _ _ t | .reaped _ _ t _ => some t
  | _ => none

/-- The process is at a control point of the program or runs an image. -/
def Life.isRunning : Life L Img → Bool
  | .code _ | .image _ => true
  | _ => false

/-- The signal reaches process `p`: by its pid, as a member of the sender's group (`0`), or as
one of all processes but the sender (`-1`). -/
def Kill.hits (k : Kill) (p : Int) : Prop :=
  k.target = p ∨ k.target = 0 ∨ (k.target = -1 ∧ k.sender ≠ p)

instance (k : Kill) (p : Int) : Decidable (k.hits p) := inferInstanceAs (Decidable (_ ∨ _ ∨ _))

/-- What a process that has ended had executed, and its status. -/
def Life.end? : Life L Img → Option (Option Img × Status)
  | .zombie img st _ | .reaped img st _ _ => some (img, st)
  | _ => none

/-- The control point of a process that is at one. -/
def Life.point? : Life L Img → Option L
  | .code l => some l
  | _ => none

/-- A process goes on with the event, and it is not just time that passes. -/
def Event.moves : Event → Bool
  | .pass _ => false
  | _ => true

/-- What the event returns to process `p`, if it is a call of it. -/
def Event.returns? (p : Int) : Event → Option Int
  | .call q ret => if q = p then some ret else none
  | _ => none

namespace Sys

/-- The control point that process `p` is at. -/
def point? (s : Sys L Img Out) (p : Int) : Option L :=
  (s.procs.lookup p).bind fun P => P.life.point?

/-- Process `p` becomes `P`. -/
def put (s : Sys L Img Out) (p : Int) (P : Proc L Img) : Sys L Img Out :=
  { s with procs := s.procs.insert p P }

/-- The calls that process `p` has made, in order. -/
def callsOf (s : Sys L Img Out) (p : Int) : List (Made L) := s.calls.filter fun c => c.pid = p

/-- The event is over, in which the calls `made` were made. -/
def tick (s : Sys L Img Out) (made : List (Made L)) : Sys L Img Out :=
  { s with clock := s.clock + 1, calls := s.calls ++ made }

/-- Process `p`, which is `P`, goes on with life `x`. -/
def live (s : Sys L Img Out) (p : Int) (P : Proc L Img) (x : Life L Img) : Sys L Img Out :=
  s.put p { P with life := x }

/-- `p` has no child that it could still wait for. -/
def NoChild (s : Sys L Img Out) (p : Int) : Prop :=
  ∀ e ∈ s.procs.entries, e.2.ppid = p → e.2.life.isReaped = true

instance (s : Sys L Img Out) (p : Int) : Decidable (s.NoChild p) := List.decidableBAll _ _

/-- The call `c` of process `p`, which is `P` at the control point `l`, returning `ret`. A fork
gives a pid that no process of the table has or had. -/
def call (s : Sys L Img Out) (p : Int) (P : Proc L Img) (l : L) (ret : Int) :
    Call L Img Out → Option (Sys L Img Out)
  | .fork k =>
    if ret = -1 then some (s.live p P (.code (k (-1))))
    else if 0 < ret ∧ ret ∉ s.procs then
      some ((s.live p P (.code (k ret))).put ret ⟨p, some l, s.clock, .code (k 0)⟩)
    else none
  | .execl img k =>
    if ret = 0 then some (s.live p P (.image img))
    else if ret = -1 then some (s.live p P (.code k))
    else none
  | .wait k =>
    if ret = -1 then
      if s.NoChild p then some (s.live p P (.code (k (-1)))) else none
    else
      match s.procs.lookup ret with
      | some ⟨pp, o, f, .zombie img st t⟩ =>
        if pp = p then
          some ((s.put ret ⟨pp, o, f, .reaped img st t s.clock⟩).live p P (.code (k ret)))
        else none
      | _ => none
  | .kill target k => some { s.live p P (.code k) with kills := s.kills ++ [⟨p, target, s.clock⟩] }
  | .exit status => some (s.live p P (.zombie none (.exited status) s.clock))
  | .now k => some (s.live p P (.code (k s.clock)))
  | .print out k => some { s.live p P (.code k) with printed := s.printed ++ [⟨p, l, out⟩] }
  | .attempt k => some (s.live p P (.code (k (ret == 0))))
  | .throws k =>
    if ret = 0 then some (s.live p P (.code k))
    else some (s.live p P (.zombie none (.signaled 6) s.clock))
  | .skip k => some (s.live p P (.code k))
  | .undefined => none

/-- `p` was sent a SIGTERM since it was forked. -/
def Pending (s : Sys L Img Out) (p : Int) (P : Proc L Img) : Prop :=
  ∃ k ∈ s.kills, k.hits p ∧ P.forkedAt < k.sentAt

instance (s : Sys L Img Out) (p : Int) (P : Proc L Img) : Decidable (s.Pending p P) :=
  List.decidableBEx _ _

/-- One event of the system whose processes run `code`. -/
def step (code : L → Call L Img Out) (s : Sys L Img Out) : Event → Option (Sys L Img Out)
  | .call p ret =>
    match s.procs.lookup p with
    | some ⟨pp, o, f, .code l⟩ =>
      (s.call p ⟨pp, o, f, .code l⟩ l ret (code l)).map fun s' => s'.tick [⟨p, l, ret, s.clock⟩]
    | _ => none
  | .exit p status =>
    match s.procs.lookup p with
    | some ⟨pp, o, f, .image img⟩ =>
      some ((s.put p ⟨pp, o, f, .zombie (some img) status s.clock⟩).tick [])
    | _ => none
  | .term p =>
    match s.procs.lookup p with
    | some P =>
      if P.life.isRunning ∧ s.Pending p P then
        some ((s.live p P (.zombie none (.signaled 15) s.clock)).tick [])
      else none
    | none => none
  | .pass time => if 0 < time then some { s with clock := s.clock + time } else none

/-- One process, at the start of the program. -/
def init (root : Int) (l : L) : Sys L Img Out :=
  ⟨AList.singleton root ⟨0, none, 0, .code l⟩, 1, [], [], []⟩

end Sys

end

end Posix
