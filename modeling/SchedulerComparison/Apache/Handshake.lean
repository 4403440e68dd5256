import SchedulerComparison.Apache.HttpClient

/-!
# The handshake of the HTTP client

The parent and the child of the HTTP client each read from a pipe that the other writes to, and both
have inherited all four ends. `handshake` shows that the two pipes do what they are for in every
run, whichever calls fail and whenever a process is killed: the start time is taken after the child
is ready, the end time is read as it was written, and nobody waits for a process that is gone.

The invariant (`Inv`) says which ends are closed at which point, and that what the parent has read
and what is in the pipe make up what the child has written (`State.Framed`).
-/

open Transition

namespace HttpClient

/-! ## What holds at a control point -/

/-- The child has sent the ready byte. -/
def ChildPoint.isReady : ChildPoint → Bool
  | .recv _ | .takeRecvDone | .writeEnd | .finished => true
  | _ => false

/-- The bytes that the child has written. -/
def State.fromChild (s : State) : List UInt8 :=
  (if s.child.isReady then readyMsg else []) ++
    if s.child = .finished then (s.recvDone.map Bytes.int64).getD [] else []

/-- The parent has read what the child took for the end time. -/
def State.HasEndTime (s : State) : Prop := s.child = .finished ∧ s.recvDone = some s.endTime

/-- What holds at a control point of the parent, whether it is alive or not. -/
def State.AtParent (s : State) : ParentPoint → Prop
  | .sleep | .fork => s.child = .unborn ∧ s.start = none
  | .setAffinity | .setScheduler | .closeRead | .closeWrite => s.start = none
  | .writeStart | .readReady => s.parentEnds.childToParent1 = false ∧ s.start = none
  | .takeStart | .sendHead _ | .sendWrite _ _ _ | .shutdown | .readEnd =>
    s.parentEnds.childToParent1 = false ∧ s.child.isReady = true
  | .wait | .log => s.HasEndTime
  | .returned => s.start ≠ none → s.child.isReady = true

/-- What the parent has read and what is in the pipe are what the child has written. -/
def State.Framed (s : State) : ParentPoint → Prop
  | .sleep | .fork | .setAffinity | .setScheduler | .closeRead | .closeWrite | .writeStart
  | .readReady => s.childToParent = s.fromChild
  | .takeStart | .sendHead _ | .sendWrite _ _ _ | .shutdown | .readEnd =>
    s.fromChild = readyMsg ++ s.childToParent
  | .wait | .log | .returned => True

/-- The child is pinned and has its scheduling policy. -/
def State.SetUp (s : State) : Prop := s.pinned = true ∧ s.fifo = true

/-- What holds at a control point of the child. -/
def State.AtChild (s : State) : ChildPoint → Prop
  | .unborn | .setAffinity => True
  | .setScheduler => s.pinned = true
  | .closeWrite => s.SetUp
  | .closeRead | .readStart | .writeReady | .recv _ | .takeRecvDone =>
    s.SetUp ∧ s.childEnds.parentToChild1 = false
  | .writeEnd | .finished => s.SetUp ∧ s.recvDone ≠ none

/-- The parent is blocked in a read of a pipe. -/
def State.ParentBlocked (s : State) : Prop :=
  s.parentAlive = true ∧
    (s.parent = .readReady ∧ readPipe s.childToParent s.childToParentOpen 1 = none ∨
      s.parent = .readEnd ∧ readPipe s.childToParent s.childToParentOpen 8 = none)

/-- The child is blocked in a read of a pipe. -/
def State.ChildBlocked (s : State) : Prop :=
  s.childAlive = true ∧ s.child = .readStart ∧
    readPipe s.parentToChild s.parentToChildOpen 1 = none

/-- What the handshake is for. -/
structure State.Sound (s : State) : Prop where
  /-- The start time is taken after the child is set up and has sent the ready byte. -/
  ready : s.parent = .takeStart ∨ s.start ≠ none → s.SetUp ∧ s.child.isReady = true
  /-- Where the parent reads the end time, there is nothing in the pipe or the end time. -/
  framed : s.parentAlive = true → s.parent = .readEnd →
    s.childToParent = [] ∨ ∃ x, s.child = .finished ∧ s.recvDone = some x ∧
      s.childToParent = Bytes.int64 x
  /-- What it has read is what the child has written. -/
  endTime : s.parent = .wait ∨ s.parent = .log → s.HasEndTime
  /-- The parent does not wait for a child that is gone. -/
  parentWaits : s.ParentBlocked → s.childAlive = true
  /-- The child does not wait for a parent that is gone. -/
  childWaits : s.ChildBlocked → s.parentAlive = true

/-- The invariant. -/
structure Inv (s : State) : Prop where
  parentGone : s.parentAlive = false → s.parentEnds = .none
  childGone : s.childAlive = false → s.childEnds = .none
  at_parent : s.AtParent s.parent
  framed : s.parentAlive = true → s.Framed s.parent
  at_child : s.AtChild s.child

section
variable {n : Int} {s s' : State} {e : Event}

/-! ## Reading -/

/-- A read blocks when the pipe is empty and a write end is open. -/
theorem readPipe_eq_none {pipe : List UInt8} {writeEndOpen : Bool} {k : Nat} :
    readPipe pipe writeEndOpen k = none ↔ pipe = [] ∧ writeEndOpen = true := by
  unfold readPipe
  split
  · next hpipe =>
    split
    · next hopen => exact iff_of_true rfl ⟨hpipe, hopen⟩
    · next hopen => exact iff_of_false (fun h => by cases h) fun h => hopen h.2
  · next hpipe => exact iff_of_false (fun h => by cases h) fun h => hpipe h.1

/-- Before the ready byte the child has written nothing. -/
theorem State.fromChild_of_not_isReady (h : s.child.isReady = false) : s.fromChild = [] := by
  have hfinished : s.child ≠ .finished := by
    intro hf
    rw [hf] at h
    cases h
  rw [State.fromChild, h, if_neg hfinished]
  rfl

/-- After the ready byte the child writes nothing but the end time. -/
theorem State.end_of_fromChild {rest : List UInt8} (h : s.fromChild = readyMsg ++ rest) :
    rest = [] ∨ ∃ x, s.child = .finished ∧ s.recvDone = some x ∧ rest = Bytes.int64 x := by
  cases hr : s.child.isReady with
  | false =>
    rw [State.fromChild_of_not_isReady hr] at h
    cases h
  | true =>
    rw [State.fromChild, if_pos hr, List.append_cancel_left_eq] at h
    split at h
    · next hf =>
      cases hd : s.recvDone with
      | none =>
        rw [hd] at h
        exact .inl h.symm
      | some x =>
        rw [hd] at h
        exact .inr ⟨x, hf, rfl, h.symm⟩
    · exact .inl h.symm

/-! ## The parent -/

/-- The parent exits or is killed, with any bytes left in the pipe. -/
theorem Inv.parentToGone (h : Inv s) (rest : List UInt8) :
    Inv { s with childToParent := rest }.parentGone := by
  refine ⟨fun _ => rfl, h.childGone, ?_, fun ha => Bool.noConfusion ha, h.at_child⟩
  have hat := h.at_parent
  show State.AtParent _ s.parent
  cases hp : s.parent <;> rw [hp] at hat
  case writeStart | readReady | takeStart | sendHead | sendWrite | shutdown | readEnd =>
    exact ⟨rfl, hat.2⟩
  all_goals exact hat

/-- The parent goes on to another control point. -/
theorem Inv.parentAt {l : ParentPoint} (h : Inv s) (hat : s.AtParent l) (hframed : s.Framed l) :
    Inv (s.parentAt l) :=
  ⟨h.parentGone, h.childGone, hat, fun _ => hframed, h.at_child⟩

/-- What holds at the control point where the parent is. -/
theorem Inv.atParent {l : ParentPoint} (h : Inv s) (hp : s.parent = l) : s.AtParent l :=
  hp ▸ h.at_parent

/-- What is in the pipe at the control point where the parent is. -/
theorem Inv.framedAt {l : ParentPoint} (h : Inv s) (ha : s.parentAlive = true)
    (hp : s.parent = l) : s.Framed l :=
  hp ▸ h.framed ha

/-- The next call of the parent keeps the invariant. -/
theorem parent_inv (h : Inv s) (ha : s.parentAlive = true) (hm : ParentMoves n s s') :
    Inv s' := by
  have halive : ¬ s.parentAlive = false := fun hc => absurd (ha.symm.trans hc) (by decide)
  cases hm with
  | gone rest => exact h.parentToGone rest
  | slept hp | pinned hp | scheduled hp | sends hp | sentAll hp =>
    have hat := h.atParent hp
    have hframed := h.framedAt ha hp
    exact h.parentAt hat hframed
  | forkFailed hp => exact h.parentAt (fun hne => absurd (h.atParent hp).2 hne) trivial
  | forked hp =>
    obtain ⟨hchild, hstart⟩ := h.atParent hp
    have hpipe : s.childToParent = s.fromChild := h.framedAt ha hp
    have hempty : s.childToParent = [] := by
      rw [hpipe]
      exact State.fromChild_of_not_isReady (by rw [hchild]; rfl)
    exact ⟨h.parentGone, fun hc => Bool.noConfusion hc, hstart, fun _ => hempty, trivial⟩
  | closedRead hp =>
    have hat := h.atParent hp
    have hframed := h.framedAt ha hp
    exact ⟨fun hc => absurd hc halive, h.childGone, hat, fun _ => hframed, h.at_child⟩
  | closedWrite hp =>
    have hat := h.atParent hp
    have hframed := h.framedAt ha hp
    exact ⟨fun hc => absurd hc halive, h.childGone, ⟨rfl, hat⟩, fun _ => hframed, h.at_child⟩
  | wroteStart hp | started hp | wrote hp | wroteLast hp | shut hp =>
    have hat := h.atParent hp
    have hframed := h.framedAt ha hp
    exact ⟨h.parentGone, h.childGone, hat, fun _ => hframed, h.at_child⟩
  | ready hp hready =>
    have hpipe : s.childToParent = s.fromChild := h.framedAt ha hp
    have hchild : s.child.isReady = true := by
      by_contra hnot
      rw [hpipe, State.fromChild_of_not_isReady (Bool.eq_false_iff.2 hnot)] at hready
      cases hready
    have hrest : s.fromChild = readyMsg ++ s.childToParent.drop 1 := by
      rw [← hready, List.take_append_drop, hpipe]
    exact ⟨h.parentGone, h.childGone, ⟨(h.atParent hp).1, hchild⟩, fun _ => hrest, h.at_child⟩
  | ended hp hlen =>
    -- all that can be in the pipe is the end time
    obtain hnil | ⟨x, hfinished, hdone, hpipe⟩ := State.end_of_fromChild (h.framedAt ha hp)
    · rw [hnil] at hlen
      cases hlen
    · have hbytes : Bytes.toInt64 (s.childToParent.take 8) = x := by
        rw [hpipe, List.take_of_length_le (Nat.le_of_eq (Bytes.length_int64 x)),
          Bytes.toInt64_int64]
      refine ⟨h.parentGone, h.childGone, ⟨hfinished, ?_⟩, fun _ => trivial, h.at_child⟩
      show s.recvDone = some (Bytes.toInt64 (s.childToParent.take 8))
      rw [hbytes, hdone]
  | waited hp =>
    have hat := h.atParent hp
    exact h.parentAt hat trivial
  | logged hp | notLogged hp =>
    have hready : s.child.isReady = true := by
      rw [(h.atParent hp).1]
      rfl
    exact ⟨h.parentGone, h.childGone, fun _ => hready, fun _ => trivial, h.at_child⟩

/-! ## The child -/

/-- A step of the child that loses nothing keeps what holds of the parent. -/
theorem State.AtParent.child {l : ParentPoint} (h : s.AtParent l) (hborn : s.child ≠ .unborn)
    (hends : s'.parentEnds = s.parentEnds) (hstart : s'.start = s.start)
    (hend : s'.endTime = s.endTime) (hready : s.child.isReady = true → s'.child.isReady = true)
    (hfinished : s.child = .finished → s'.child = .finished ∧ s'.recvDone = s.recvDone) :
    s'.AtParent l := by
  cases l with
  | sleep | fork => exact absurd h.1 hborn
  | setAffinity | setScheduler | closeRead | closeWrite => exact hstart.trans h
  | writeStart | readReady =>
    exact ⟨(congrArg Ends.childToParent1 hends).trans h.1, hstart.trans h.2⟩
  | takeStart | sendHead | sendWrite | shutdown | readEnd =>
    exact ⟨(congrArg Ends.childToParent1 hends).trans h.1, hready h.2⟩
  | wait | log =>
    obtain ⟨hf, hd⟩ := h
    obtain ⟨hf', hd'⟩ := hfinished hf
    exact ⟨hf', by rw [hd', hd, hend]⟩
  | returned => exact fun hne => hready (h (hstart ▸ hne))

/-- What the child writes goes to the end of the pipe. -/
theorem State.Framed.write {l : ParentPoint} {bytes : List UInt8} (h : s.Framed l)
    (hpipe : s'.childToParent = s.childToParent ++ bytes)
    (hfrom : s'.fromChild = s.fromChild ++ bytes) : s'.Framed l := by
  cases l with
  | sleep | fork | setAffinity | setScheduler | closeRead | closeWrite | writeStart | readReady =>
    have heq : s.childToParent = s.fromChild := h
    show s'.childToParent = s'.fromChild
    rw [hpipe, hfrom, heq]
  | takeStart | sendHead | sendWrite | shutdown | readEnd =>
    have heq : s.fromChild = readyMsg ++ s.childToParent := h
    show s'.fromChild = readyMsg ++ s'.childToParent
    rw [hpipe, hfrom, heq, List.append_assoc]
  | wait | log | returned => trivial

/-- Until it is finished, the child has written at most the ready byte. -/
theorem State.fromChild_of_not_finished (h : s.child ≠ .finished) :
    s.fromChild = if s.child.isReady then readyMsg else [] := by
  rw [State.fromChild, if_neg h, List.append_nil]

/-- The child is born and has not written the end time. -/
def ChildPoint.underWay : ChildPoint → Bool
  | .unborn | .finished => false
  | _ => true

theorem ChildPoint.ne_of_underWay {l l' : ChildPoint} (h : l.underWay = true)
    (h' : l'.underWay = false) : l ≠ l' := by
  rintro rfl
  exact absurd (h'.symm.trans h) Bool.false_ne_true

/-- The child goes on to another control point. -/
theorem Inv.child {l l' : ChildPoint} {ends : Ends} {pinned fifo : Bool}
    {parentToChild childToParent bytes incoming : List UInt8} {recvDone : Option (BitVec 64)}
    {atEof : Option SocketUse} (h : Inv s) (ha : s.childAlive = true) (hp : s.child = l)
    (hl : l.underWay = true) (hready : l.isReady = true → l'.isReady = true)
    (hpipe : childToParent = s.childToParent ++ bytes)
    (hfrom : State.fromChild { s with child := l', recvDone } = s.fromChild ++ bytes)
    (hat : State.AtChild { s with childEnds := ends, pinned, fifo, recvDone } l') :
    Inv { s with
      child := l', childEnds := ends, pinned, fifo, parentToChild, childToParent, incoming,
      recvDone, atEof } := by
  subst hp
  exact ⟨h.parentGone, fun hc => Bool.noConfusion (ha.symm.trans hc),
    h.at_parent.child (ChildPoint.ne_of_underWay hl rfl) rfl rfl rfl hready fun hf =>
      absurd hf (ChildPoint.ne_of_underWay hl rfl),
    fun halive => (h.framed halive).write hpipe hfrom, hat⟩

/-- The child goes on and writes nothing. -/
theorem Inv.childSilent {l l' : ChildPoint} {ends : Ends} {pinned fifo : Bool}
    {parentToChild incoming : List UInt8} {recvDone : Option (BitVec 64)}
    {atEof : Option SocketUse} (h : Inv s) (ha : s.childAlive = true) (hp : s.child = l)
    (hl : l.underWay = true) (hl' : l'.underWay = true) (hready : l'.isReady = l.isReady)
    (hat : State.AtChild { s with childEnds := ends, pinned, fifo, recvDone } l') :
    Inv { s with
      child := l', childEnds := ends, pinned, fifo, parentToChild, incoming, recvDone, atEof } := by
  refine h.child ha hp hl (fun hr => hready.trans hr) (List.append_nil _).symm ?_ hat
  subst hp
  have hfinished' : l' ≠ .finished := ChildPoint.ne_of_underWay hl' rfl
  rw [State.fromChild_of_not_finished (ChildPoint.ne_of_underWay hl rfl), List.append_nil,
    State.fromChild_of_not_finished (s := { s with child := l', recvDone }) hfinished', hready]

/-- The child exits or is killed, with any bytes left in the pipe it reads. -/
theorem Inv.childToGone (h : Inv s) (rest : List UInt8) :
    Inv { s with parentToChild := rest }.childGone := by
  refine ⟨h.parentGone, fun _ => rfl, ?_, fun halive => h.framed halive, ?_⟩
  · exact h.at_parent
  · have hat := h.at_child
    show State.AtChild _ s.child
    cases hp : s.child <;> rw [hp] at hat
    case closeRead | readStart | writeReady | recv | takeRecvDone => exact ⟨hat.1, rfl⟩
    all_goals exact hat

/-- What holds at the control point where the child is. -/
theorem Inv.atChild {l : ChildPoint} (h : Inv s) (hp : s.child = l) : s.AtChild l :=
  hp ▸ h.at_child

/-- The next call of the child keeps the invariant. -/
theorem child_inv (h : Inv s) (ha : s.childAlive = true) (hm : ChildMoves s s') : Inv s' := by
  cases hm with
  | gone rest => exact h.childToGone rest
  | pinned hp => exact h.childSilent ha hp rfl rfl rfl rfl
  | scheduled hp | closedWrite hp => exact h.childSilent ha hp rfl rfl rfl ⟨h.atChild hp, rfl⟩
  | closedRead hp | started hp | received hp | sawEof hp =>
    have hat := h.atChild hp
    exact h.childSilent ha hp rfl rfl rfl hat
  | wroteReady hp =>
    have hat := h.atChild hp
    refine h.child ha hp rfl (fun _ => rfl) rfl ?_ hat
    have hnot : s.child.isReady = false := by
      rw [hp]
      rfl
    rw [State.fromChild_of_not_isReady hnot]
    rfl
  | tookRecvDone hp =>
    exact h.childSilent ha hp rfl rfl rfl ⟨(h.atChild hp).1, Option.some_ne_none _⟩
  | wroteEnd hp hdone =>
    have hat := h.atChild hp
    refine h.child ha hp rfl (fun _ => rfl) rfl ?_ hat
    rw [State.fromChild_of_not_finished (s := s) (by simp [hp]), hp]
    show readyMsg ++ (s.recvDone.map Bytes.int64).getD [] = readyMsg ++ Bytes.int64 _
    rw [hdone]
    rfl

/-! ## The theorem -/

/-- The invariant holds at the start. -/
theorem inv_start : Inv start :=
  ⟨fun h => Bool.noConfusion h, fun _ => rfl, ⟨rfl, rfl⟩, fun _ => rfl, trivial⟩

/-- Every step keeps the invariant. -/
theorem inv_step (h : Inv s) (hs : step n s e = some s') : Inv s' := by
  cases moves_of_step hs with
  | parent halive hm => exact parent_inv h halive hm
  | child halive hm => exact child_inv h halive hm
  | killParent => exact h.parentToGone _
  | killChild => exact h.childToGone _
  | serverReads | serverSends | serverCloses | tick =>
    exact ⟨h.parentGone, h.childGone, h.at_parent, h.framed, h.at_child⟩

/-- The invariant holds in every state reached. -/
theorem reach_inv {C : State → Event → Prop} (h : Reach (step n) C start s) : Inv s :=
  h.invariant inv_start fun _ _ _ hi _ hs => inv_step hi hs

/-- A child that has sent the ready byte is set up. -/
theorem State.AtChild.setUp {l : ChildPoint} (h : s.AtChild l) (hr : l.isReady = true) :
    s.SetUp := by
  cases l with
  | recv | takeRecvDone | writeEnd | finished => exact h.1
  | _ => cases hr

/-- Where the start time has been taken, the child has sent the ready byte. -/
theorem State.AtParent.isReady {l : ParentPoint} (h : s.AtParent l)
    (hl : l = .takeStart ∨ s.start ≠ none) : s.child.isReady = true := by
  cases l with
  | sleep | fork | writeStart | readReady => exact absurd h.2 (hl.resolve_left (by simp))
  | setAffinity | setScheduler | closeRead | closeWrite =>
    exact absurd h (hl.resolve_left (by simp))
  | takeStart | sendHead | sendWrite | shutdown | readEnd => exact h.2
  | wait | log => rw [h.1]; rfl
  | returned => exact h (hl.resolve_left (by simp))

/-- The two pipes of the HTTP client do what they are for, in every run: the parent takes the start
time after the child is set up and has sent the ready byte, it reads the end time that the child has
written, and neither waits in a pipe for the other when it is gone. -/
theorem handshake (numRequests : Int) (s : State) (h : Reach (step numRequests) Free start s) :
    s.Sound := by
  have hinv := reach_inv h
  refine ⟨fun hl => ?_, fun ha hp => ?_, fun hl => ?_, fun ⟨ha, hl⟩ => ?_, fun ⟨ha, hp, hr⟩ => ?_⟩
  · have hready := hinv.at_parent.isReady hl
    exact ⟨hinv.at_child.setUp hready, hready⟩
  · have hframed := hinv.framed ha
    rw [hp] at hframed
    exact State.end_of_fromChild hframed
  · have hat := hinv.at_parent
    rcases hl with hp | hp <;> rw [hp] at hat
    · exact hat
    · exact hat
  · by_contra hgone
    have hends := hinv.childGone (Bool.eq_false_iff.2 hgone)
    have hclosed : s.parentEnds.childToParent1 = false := by
      have hat := hinv.at_parent
      rcases hl with ⟨hp, -⟩ | ⟨hp, -⟩ <;> rw [hp] at hat
      · exact hat.1
      · exact hat.1
    have hopen : s.childToParentOpen = true := by
      rcases hl with ⟨-, hr⟩ | ⟨-, hr⟩
      · exact (readPipe_eq_none.1 hr).2
      · exact (readPipe_eq_none.1 hr).2
    rw [State.childToParentOpen, hclosed, hends] at hopen
    cases hopen
  · by_contra hgone
    have hends := hinv.parentGone (Bool.eq_false_iff.2 hgone)
    have hclosed : s.childEnds.parentToChild1 = false := by
      have hat := hinv.at_child
      rw [hp] at hat
      exact hat.2
    have hopen : s.parentToChildOpen = true := (readPipe_eq_none.1 hr).2
    rw [State.parentToChildOpen, hclosed, hends] at hopen
    cases hopen

end

/-! ## One request -/

/-- The client sends one request, and the server closes its side after it. -/
def oneRequest : List Event :=
  [.tick 5000000000, .parent 0, .parent 100, .parent 0, .parent 0, .parent 0, .parent 0, .child 0,
    .child 0, .child 0, .child 0, .parent 1, .child 1, .child 1, .parent 1, .parent 0, .parent 0,
    .serverReads 48, .tick 10, .parent 48, .parent 0, .parent 0, .serverCloses, .tick 10, .child 0,
    .child 0, .child 8, .parent 8, .child 0, .parent 100]

/-- The end time is read as the child took it. -/
theorem handshake_oneRequest : ∃ s, Reach (step 1) Free start s ∧ s.parent = .log ∧ s.Sound := by
  have hlog : (exec (step 1) Free start oneRequest).map (·.parent) = some .log := by decide +kernel
  obtain ⟨s, hrun, hp⟩ := Option.map_eq_some_iff.1 hlog
  have hreach : Reach (step 1) Free start s := .of_exec oneRequest hrun
  exact ⟨s, hreach, hp, handshake 1 s hreach⟩

end HttpClient
