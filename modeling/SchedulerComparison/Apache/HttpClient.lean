import SchedulerComparison.Lib.Bytes
import SchedulerComparison.Lib.Transition

/-!
# The HTTP client

`main` of `apache/http_client/http_client.cpp` after `connect` has returned `0`, with `send_get`,
`recv_until_eof` and `child_task`, system call by system call. The parent sends the requests and
takes the start time, its child receives until the end of the stream and takes the end time, and
they talk through two pipes. The server is a third party that can read, send and close at any time,
so that a write to the socket has to wait when the server does not read; either process can be
killed at any time, and the clock goes on when it likes.

What `recv_until_eof` prints of its buffer is a matter of its own: see `recvUntilEof`.
-/

open Transition

namespace HttpClient

/-- `start_msg`, one byte. -/
def startMsg : List UInt8 := [0x73]

/-- `ready_msg`, one byte. -/
def readyMsg : List UInt8 := [0x72]

/-- `msg` of `send_get`. -/
def msg : List UInt8 :=
  "GET / HTTP/1.1\r\nHost: www.scheduler_test.com\r\n\r\n".toList.map fun c => UInt8.ofNat c.toNat

/-- The requests, one after the other. -/
def requests (n : Nat) : List UInt8 := (List.replicate n msg).flatten

/-! ## Pipes -/

/-- The ends of the pipes `parent_to_child` and `child_to_parent` that a process holds. -/
structure Ends where
  parentToChild0 : Bool
  parentToChild1 : Bool
  childToParent0 : Bool
  childToParent1 : Bool
  deriving DecidableEq

/-- The ends of a process that has closed none. -/
def Ends.all : Ends := ⟨true, true, true, true⟩

/-- The ends of a process that is gone. -/
def Ends.none : Ends := ⟨false, false, false, false⟩

/-- `read(fd, buf, n)` from a pipe: the bytes that are read, and what is left. A pipe without bytes
is at its end when no write end is open, and otherwise the call blocks. -/
def readPipe (pipe : List UInt8) (writeEndOpen : Bool) (n : Nat) :
    Option (List UInt8 × List UInt8) :=
  if pipe = [] then if writeEndOpen then none else some ([], [])
  else some (pipe.take n, pipe.drop n)

/-! ## The state -/

/-- The control points of the parent. In the sending loop `total` is `total_sends`, and in
`send_get` there are `remaining` bytes left, from byte `curr` of the message on. -/
inductive ParentPoint where
  | sleep
  | fork
  | setAffinity
  | setScheduler
  | closeRead
  | closeWrite
  | writeStart
  | readReady
  | takeStart
  | sendHead (total : Int)
  | sendWrite (total : Int) (remaining curr : Nat)
  | shutdown
  | readEnd
  | wait
  | log
  | returned
  deriving DecidableEq

/-- The control points of the child. In `recv_until_eof`, `total` is `total_bytes`. -/
inductive ChildPoint where
  | unborn
  | setAffinity
  | setScheduler
  | closeWrite
  | closeRead
  | readStart
  | writeReady
  | recv (total : Nat)
  | takeRecvDone
  | writeEnd
  | finished
  deriving DecidableEq

/-- What has been done with the socket. -/
structure SocketUse where
  sent : List UInt8
  shut : Bool
  deriving DecidableEq

/-- The state of the two processes, the pipes, the socket and the clock. A process that is gone
stays where it was. The bytes that the parent handed to the socket are `sent`, the socket has room
for `room` more, and those that the child has not read are `incoming`. `atStart` and `atEof` are not
variables of the source: what had been done with the socket when the start time was taken and when
the child saw the end of the stream. -/
structure State where
  parent : ParentPoint
  parentAlive : Bool
  parentEnds : Ends
  child : ChildPoint
  childAlive : Bool
  childEnds : Ends
  receiver : Int
  pinned : Bool
  fifo : Bool
  parentToChild : List UInt8
  childToParent : List UInt8
  sent : List UInt8
  shut : Bool
  room : Nat
  incoming : List UInt8
  serverClosed : Bool
  clock : Nat
  start : Option (BitVec 64)
  recvDone : Option (BitVec 64)
  endTime : BitVec 64
  atStart : Option SocketUse
  atEof : Option SocketUse
  logged : Option Int

/-- What can happen next. -/
inductive Event where
  | parent (ret : Int)
  | child (ret : Int)
  | killParent
  | killChild
  /-- The socket gets room for so many more bytes: its buffers at first, and later what the server
  reads. -/
  | serverReads (bytes : Nat)
  | serverSends (bytes : List UInt8)
  | serverCloses
  | tick (nanosec : Nat)
  deriving DecidableEq

namespace State

/-- `steady_clock::now()`, in nanoseconds since its epoch. -/
def now (s : State) : BitVec 64 := BitVec.ofNat 64 s.clock

/-- What has been done with the socket so far. -/
def use (s : State) : SocketUse := { sent := s.sent, shut := s.shut }

/-- The parent continues at a control point. -/
def parentAt (s : State) (l : ParentPoint) : State := { s with parent := l }

/-- The parent exits or is killed. -/
def parentGone (s : State) : State := { s with parentAlive := false, parentEnds := .none }

/-- The child exits or is killed. -/
def childGone (s : State) : State := { s with childAlive := false, childEnds := .none }

/-- The write end of `child_to_parent` is open in a process. -/
def childToParentOpen (s : State) : Bool :=
  s.parentEnds.childToParent1 || s.childEnds.childToParent1

/-- The write end of `parent_to_child` is open in a process. -/
def parentToChildOpen (s : State) : Bool :=
  s.parentEnds.parentToChild1 || s.childEnds.parentToChild1

end State

/-! ## The parent -/

/-- `end_time - ticks`: without a meaning when it overflows. -/
def totalNanosec (endTime ticks : BitVec 64) : Option Int :=
  let d := endTime.toInt - ticks.toInt
  if -2 ^ 63 ≤ d ∧ d < 2 ^ 63 then some d else none

/-- The next call of the parent (`http_client.cpp:250-336`, with `send_get`, `:36`), with `ret` what
it returns. What a read of a pipe returns is determined, but for `-1`, and a write to the socket
takes no more than there is room for. -/
def parentStep (numRequests : Int) (s : State) (ret : Int) : Option State :=
  match s.parent with
  | .sleep => some (s.parentAt .fork)
  | .fork =>
    if ret = -1 then some (s.parentAt .returned)
    else if 0 < ret then
      some { s with
        parent := .setAffinity
        receiver := ret
        child := .setAffinity
        childAlive := true
        childEnds := s.parentEnds }
    else none
  | .setAffinity => some (if ret < 0 then s.parentGone else s.parentAt .setScheduler)
  | .setScheduler => some (if ret < 0 then s.parentGone else s.parentAt .closeRead)
  | .closeRead =>
    some { s with
      parent := .closeWrite
      parentEnds := { s.parentEnds with parentToChild0 := false } }
  | .closeWrite =>
    some { s with
      parent := .writeStart
      parentEnds := { s.parentEnds with childToParent1 := false } }
  | .writeStart =>
    if ret = 1 then
      if s.parentEnds.parentToChild0 || s.childEnds.parentToChild0 then
        some { s with parent := .readReady, parentToChild := s.parentToChild ++ startMsg }
      else none
    else some s.parentGone
  | .readReady =>
    if ret = -1 then some s.parentGone
    else (readPipe s.childToParent s.childToParentOpen 1).map fun (ready, rest) =>
      -- `res != 1` and `ready != ready_msg[0]` both exit
      if ready = readyMsg then { s with parent := .takeStart, childToParent := rest }
      else { s with childToParent := rest }.parentGone
  | .takeStart =>
    some { s with parent := .sendHead numRequests, start := some s.now, atStart := some s.use }
  | .sendHead total =>
    some (s.parentAt (if 0 < total then .sendWrite total msg.length 0 else .shutdown))
  | .sendWrite total remaining curr =>
    if ret = -1 then some s.parentGone
    else if 0 ≤ ret ∧ ret ≤ remaining ∧ ret ≤ s.room then
      some { s with
        sent := s.sent ++ (msg.drop curr).take ret.toNat
        room := s.room - ret.toNat
        parent := if 0 < remaining - ret.toNat then
            .sendWrite total (remaining - ret.toNat) (curr + ret.toNat)
          else .sendHead (total - 1) }
    else none
  | .shutdown =>
    some (if ret = -1 then s.parentGone else { s with parent := .readEnd, shut := true })
  | .readEnd =>
    if ret = -1 then some s.parentGone
    else (readPipe s.childToParent s.childToParentOpen 8).map fun (bytes, rest) =>
      if bytes.length = 8 then
        { s with parent := .wait, childToParent := rest, endTime := Bytes.toInt64 bytes }
      else { s with childToParent := rest }.parentGone
  | .wait =>
    if ret = s.receiver then if s.childAlive then none else some (s.parentAt .log)
    else some s.parentGone
  | .log => do
    let total ← totalNanosec s.endTime (← s.start)
    return if ret = 0 then { s with parent := .returned, logged := some total }
      else s.parentAt .returned
  | .returned => some s.parentGone

/-! ## The child -/

/-- The next call of the child (`child_task`, `http_client.cpp:79`, with `recv_until_eof`, `:56`,
and the `exit(0)` after it). A read of the socket returns any number of the bytes that have come,
`0` when there are none and the server has closed its side, or `-1`. -/
def childStep (s : State) (ret : Int) : Option State :=
  match s.child with
  | .unborn => none
  | .setAffinity =>
    some (if ret < 0 then s.childGone else { s with child := .setScheduler, pinned := true })
  | .setScheduler =>
    some (if ret < 0 then s.childGone else { s with child := .closeWrite, fifo := true })
  | .closeWrite =>
    some { s with child := .closeRead, childEnds := { s.childEnds with parentToChild1 := false } }
  | .closeRead =>
    some { s with child := .readStart, childEnds := { s.childEnds with childToParent0 := false } }
  | .readStart =>
    if ret = -1 then some s.childGone
    else (readPipe s.parentToChild s.parentToChildOpen 1).map fun (start, rest) =>
      -- another byte than `start_msg[0]` is only reported
      if start.length = 1 then { s with child := .writeReady, parentToChild := rest }
      else { s with parentToChild := rest }.childGone
  | .writeReady =>
    if ret = 1 then
      if s.parentEnds.childToParent0 || s.childEnds.childToParent0 then
        some { s with child := .recv 0, childToParent := s.childToParent ++ readyMsg }
      else none
    else some s.childGone
  | .recv total =>
    if ret = -1 then some s.childGone
    else if ret = 0 then
      if s.incoming = [] ∧ s.serverClosed = true then
        some { s with child := .takeRecvDone, atEof := some s.use }
      else none
    else if 0 < ret ∧ ret ≤ 256 ∧ ret ≤ s.incoming.length then
      -- `total_bytes` is an int
      if total + ret.toNat < 2 ^ 31 then
        some { s with child := .recv (total + ret.toNat), incoming := s.incoming.drop ret.toNat }
      else none
    else none
  | .takeRecvDone => some { s with child := .writeEnd, recvDone := some s.now }
  | .writeEnd =>
    if ret = 8 then
      if s.parentEnds.childToParent0 || s.childEnds.childToParent0 then
        s.recvDone.map fun recvDone =>
          { s with child := .finished, childToParent := s.childToParent ++ Bytes.int64 recvDone }
      else none
    else some s.childGone
  | .finished => some s.childGone

/-! ## The client and the server -/

/-- One step of the client or the server. -/
def step (numRequests : Int) (s : State) : Event → Option State
  | .parent ret => if s.parentAlive then parentStep numRequests s ret else none
  | .child ret => if s.childAlive then childStep s ret else none
  | .killParent => if s.parentAlive then some s.parentGone else none
  | .killChild => if s.childAlive then some s.childGone else none
  | .serverReads bytes => some { s with room := s.room + bytes }
  | .serverSends bytes =>
    if s.serverClosed then none else some { s with incoming := s.incoming ++ bytes }
  | .serverCloses => if s.serverClosed then none else some { s with serverClosed := true }
  | .tick nanosec =>
    if s.clock + nanosec < 2 ^ 63 then some { s with clock := s.clock + nanosec } else none

/-- The parent after `connect`, with both pipes open. -/
def start : State where
  parent := .sleep
  parentAlive := true
  parentEnds := .all
  child := .unborn
  childAlive := false
  childEnds := .none
  receiver := 0
  pinned := false
  fifo := false
  parentToChild := []
  childToParent := []
  sent := []
  shut := false
  room := 0
  incoming := []
  serverClosed := false
  clock := 0
  start := none
  recvDone := none
  endTime := 0
  atStart := none
  atEof := none
  logged := none

/-! ## What a step can do -/

/-- What a call of the parent does. -/
inductive ParentMoves (numRequests : Int) (s : State) : State → Prop
  | gone (rest : List UInt8) :
      ParentMoves numRequests s { s with childToParent := rest }.parentGone
  | slept (hp : s.parent = .sleep) : ParentMoves numRequests s (s.parentAt .fork)
  | forkFailed (hp : s.parent = .fork) : ParentMoves numRequests s (s.parentAt .returned)
  | forked {pid : Int} (hp : s.parent = .fork) (hpid : 0 < pid) :
      ParentMoves numRequests s { s with
        parent := .setAffinity, receiver := pid, child := .setAffinity, childAlive := true,
        childEnds := s.parentEnds }
  | pinned (hp : s.parent = .setAffinity) :
      ParentMoves numRequests s (s.parentAt .setScheduler)
  | scheduled (hp : s.parent = .setScheduler) :
      ParentMoves numRequests s (s.parentAt .closeRead)
  | closedRead (hp : s.parent = .closeRead) :
      ParentMoves numRequests s { s with
        parent := .closeWrite, parentEnds := { s.parentEnds with parentToChild0 := false } }
  | closedWrite (hp : s.parent = .closeWrite) :
      ParentMoves numRequests s { s with
        parent := .writeStart, parentEnds := { s.parentEnds with childToParent1 := false } }
  | wroteStart (hp : s.parent = .writeStart) :
      ParentMoves numRequests s { s with
        parent := .readReady, parentToChild := s.parentToChild ++ startMsg }
  | ready (hp : s.parent = .readReady) (hready : s.childToParent.take 1 = readyMsg) :
      ParentMoves numRequests s { s with
        parent := .takeStart, childToParent := s.childToParent.drop 1 }
  | started (hp : s.parent = .takeStart) :
      ParentMoves numRequests s { s with
        parent := .sendHead numRequests, start := some s.now, atStart := some s.use }
  | sends {total : Int} (hp : s.parent = .sendHead total) (hpos : 0 < total) :
      ParentMoves numRequests s (s.parentAt (.sendWrite total msg.length 0))
  | sentAll {total : Int} (hp : s.parent = .sendHead total) (hpos : ¬ 0 < total) :
      ParentMoves numRequests s (s.parentAt .shutdown)
  | wrote {total : Int} {remaining curr k : Nat} (hp : s.parent = .sendWrite total remaining curr)
      (hk : 0 < remaining - k) :
      ParentMoves numRequests s { s with
        sent := s.sent ++ (msg.drop curr).take k
        room := s.room - k
        parent := .sendWrite total (remaining - k) (curr + k) }
  | wroteLast {total : Int} {remaining curr : Nat}
      (hp : s.parent = .sendWrite total remaining curr) :
      ParentMoves numRequests s { s with
        sent := s.sent ++ (msg.drop curr).take remaining, room := s.room - remaining
        parent := .sendHead (total - 1) }
  | shut (hp : s.parent = .shutdown) :
      ParentMoves numRequests s { s with parent := .readEnd, shut := true }
  | ended (hp : s.parent = .readEnd) (hlen : (s.childToParent.take 8).length = 8) :
      ParentMoves numRequests s { s with
        parent := .wait, childToParent := s.childToParent.drop 8,
        endTime := Bytes.toInt64 (s.childToParent.take 8) }
  | waited (hp : s.parent = .wait) (hgone : s.childAlive = false) :
      ParentMoves numRequests s (s.parentAt .log)
  | logged {ticks : BitVec 64} {total : Int} (hp : s.parent = .log) (hticks : s.start = some ticks)
      (htotal : totalNanosec s.endTime ticks = some total) :
      ParentMoves numRequests s { s with parent := .returned, logged := some total }
  | notLogged (hp : s.parent = .log) : ParentMoves numRequests s (s.parentAt .returned)

/-- What a call of the child does. -/
inductive ChildMoves (s : State) : State → Prop
  | gone (rest : List UInt8) : ChildMoves s { s with parentToChild := rest }.childGone
  | pinned (hp : s.child = .setAffinity) :
      ChildMoves s { s with child := .setScheduler, pinned := true }
  | scheduled (hp : s.child = .setScheduler) :
      ChildMoves s { s with child := .closeWrite, fifo := true }
  | closedWrite (hp : s.child = .closeWrite) :
      ChildMoves s { s with
        child := .closeRead, childEnds := { s.childEnds with parentToChild1 := false } }
  | closedRead (hp : s.child = .closeRead) :
      ChildMoves s { s with
        child := .readStart, childEnds := { s.childEnds with childToParent0 := false } }
  | started (hp : s.child = .readStart) :
      ChildMoves s { s with child := .writeReady, parentToChild := s.parentToChild.drop 1 }
  | wroteReady (hp : s.child = .writeReady) :
      ChildMoves s { s with child := .recv 0, childToParent := s.childToParent ++ readyMsg }
  | received {total k : Nat} (hp : s.child = .recv total) (hk : 1 ≤ k ∧ k ≤ 256)
      (hlen : k ≤ s.incoming.length) (hlt : total + k < 2 ^ 31) :
      ChildMoves s { s with child := .recv (total + k), incoming := s.incoming.drop k }
  | sawEof {total : Nat} (hp : s.child = .recv total) (hempty : s.incoming = [])
      (hclosed : s.serverClosed = true) :
      ChildMoves s { s with child := .takeRecvDone, atEof := some s.use }
  | tookRecvDone (hp : s.child = .takeRecvDone) :
      ChildMoves s { s with child := .writeEnd, recvDone := some s.now }
  | wroteEnd {recvDone : BitVec 64} (hp : s.child = .writeEnd)
      (hdone : s.recvDone = some recvDone) :
      ChildMoves s { s with
        child := .finished, childToParent := s.childToParent ++ Bytes.int64 recvDone }

/-- What a step does. -/
inductive Moves (numRequests : Int) (s : State) : Event → State → Prop
  | parent {ret : Int} {s' : State} (halive : s.parentAlive = true)
      (hm : ParentMoves numRequests s s') : Moves numRequests s (.parent ret) s'
  | child {ret : Int} {s' : State} (halive : s.childAlive = true) (hm : ChildMoves s s') :
      Moves numRequests s (.child ret) s'
  | killParent : Moves numRequests s .killParent s.parentGone
  | killChild : Moves numRequests s .killChild s.childGone
  | serverReads {bytes : Nat} :
      Moves numRequests s (.serverReads bytes) { s with room := s.room + bytes }
  | serverSends {bytes : List UInt8} (hopen : s.serverClosed = false) :
      Moves numRequests s (.serverSends bytes) { s with incoming := s.incoming ++ bytes }
  | serverCloses (hopen : s.serverClosed = false) :
      Moves numRequests s .serverCloses { s with serverClosed := true }
  | tick {nanosec : Nat} (hlt : s.clock + nanosec < 2 ^ 63) :
      Moves numRequests s (.tick nanosec) { s with clock := s.clock + nanosec }

section
variable {numRequests ret : Int} {s s' : State}

/-- What is read is taken from the front of the pipe. -/
theorem readPipe_eq_some {pipe bytes rest : List UInt8} {writeEndOpen : Bool} {k : Nat}
    (h : readPipe pipe writeEndOpen k = some (bytes, rest)) :
    bytes = pipe.take k ∧ rest = pipe.drop k := by
  unfold readPipe at h
  split at h
  · next hpipe =>
    split at h
    · cases h
    · cases h
      rw [hpipe, List.take_nil, List.drop_nil]
      exact ⟨rfl, rfl⟩
  · cases h
    exact ⟨rfl, rfl⟩

/-- The calls of the parent are these moves. -/
theorem parentMoves_of_step (hs : parentStep numRequests s ret = some s') :
    ParentMoves numRequests s s' := by
  cases hp : s.parent <;> simp only [parentStep, hp] at hs
  case sleep =>
    cases hs
    exact .slept hp
  case fork =>
    split at hs
    · cases hs
      exact .forkFailed hp
    · split at hs
      · next hpid =>
        cases hs
        exact .forked hp hpid
      · cases hs
  case setAffinity =>
    split at hs <;> cases hs
    · exact .gone _
    · exact .pinned hp
  case setScheduler =>
    split at hs <;> cases hs
    · exact .gone _
    · exact .scheduled hp
  case closeRead =>
    cases hs
    exact .closedRead hp
  case closeWrite =>
    cases hs
    exact .closedWrite hp
  case writeStart =>
    split at hs
    · split at hs <;> cases hs
      exact .wroteStart hp
    · cases hs
      exact .gone _
  case readReady =>
    split at hs
    · cases hs
      exact .gone _
    · obtain ⟨⟨ready, rest⟩, hread, rfl⟩ := Option.map_eq_some_iff.1 hs
      obtain ⟨rfl, rfl⟩ := readPipe_eq_some hread
      dsimp only
      split
      · next hready => exact .ready hp hready
      · rw [← hp]
        exact .gone _
  case takeStart =>
    cases hs
    exact .started hp
  case sendHead total =>
    cases hs
    split
    · next hpos => exact .sends hp hpos
    · next hpos => exact .sentAll hp hpos
  case sendWrite total remaining curr =>
    split at hs
    · cases hs
      exact .gone _
    · split at hs
      · next hret =>
        cases hs
        split
        · next hrest => exact .wrote hp hrest
        · next hrest =>
          have hall : ret.toNat = remaining := by omega
          rw [hall]
          exact .wroteLast hp
      · cases hs
  case shutdown =>
    split at hs <;> cases hs
    · exact .gone _
    · exact .shut hp
  case readEnd =>
    split at hs
    · cases hs
      exact .gone _
    · obtain ⟨⟨bytes, rest⟩, hread, rfl⟩ := Option.map_eq_some_iff.1 hs
      obtain ⟨rfl, rfl⟩ := readPipe_eq_some hread
      dsimp only
      split
      · next hlen => exact .ended hp hlen
      · rw [← hp]
        exact .gone _
  case wait =>
    split at hs
    · split at hs <;> cases hs
      next hgone => exact .waited hp (Bool.eq_false_iff.2 hgone)
    · cases hs
      exact .gone _
  case log =>
    obtain ⟨ticks, hticks, hs⟩ := Option.bind_eq_some_iff.1 hs
    obtain ⟨total, htotal, hs⟩ := Option.bind_eq_some_iff.1 hs
    cases hs
    split
    · exact .logged hp hticks htotal
    · exact .notLogged hp
  case returned =>
    cases hs
    exact .gone _

/-- The calls of the child are these moves. -/
theorem childMoves_of_step (hs : childStep s ret = some s') : ChildMoves s s' := by
  cases hp : s.child <;> simp only [childStep, hp] at hs
  case unborn => cases hs
  case setAffinity =>
    split at hs <;> cases hs
    · exact .gone _
    · exact .pinned hp
  case setScheduler =>
    split at hs <;> cases hs
    · exact .gone _
    · exact .scheduled hp
  case closeWrite =>
    cases hs
    exact .closedWrite hp
  case closeRead =>
    cases hs
    exact .closedRead hp
  case readStart =>
    split at hs
    · cases hs
      exact .gone _
    · obtain ⟨⟨start, rest⟩, hread, rfl⟩ := Option.map_eq_some_iff.1 hs
      obtain ⟨rfl, rfl⟩ := readPipe_eq_some hread
      dsimp only
      split
      · exact .started hp
      · rw [← hp]
        exact .gone _
  case writeReady =>
    split at hs
    · split at hs <;> cases hs
      exact .wroteReady hp
    · cases hs
      exact .gone _
  case recv total =>
    split at hs
    · cases hs
      exact .gone _
    · split at hs
      · split at hs <;> cases hs
        next heof => exact .sawEof hp heof.1 heof.2
      · split at hs
        · next hret =>
          split at hs <;> cases hs
          next hlt => exact .received hp (by omega) (by omega) hlt
        · cases hs
  case takeRecvDone =>
    cases hs
    exact .tookRecvDone hp
  case writeEnd =>
    split at hs
    · split at hs
      · obtain ⟨recvDone, hdone, rfl⟩ := Option.map_eq_some_iff.1 hs
        exact .wroteEnd hp hdone
      · cases hs
    · cases hs
      exact .gone _
  case finished =>
    cases hs
    exact .gone _

/-- The steps are these moves. -/
theorem moves_of_step {e : Event} (hs : step numRequests s e = some s') :
    Moves numRequests s e s' := by
  cases e <;> rw [step] at hs
  case serverReads =>
    cases hs
    exact .serverReads
  all_goals split at hs
  case parent.isTrue halive => exact .parent halive (parentMoves_of_step hs)
  case child.isTrue halive => exact .child halive (childMoves_of_step hs)
  case killParent.isTrue => cases hs; exact .killParent
  case killChild.isTrue => cases hs; exact .killChild
  case serverSends.isFalse hopen => cases hs; exact .serverSends (Bool.eq_false_iff.2 hopen)
  case serverCloses.isFalse hopen => cases hs; exact .serverCloses (Bool.eq_false_iff.2 hopen)
  case tick.isTrue hlt => cases hs; exact .tick hlt
  all_goals cases hs

end

end HttpClient
