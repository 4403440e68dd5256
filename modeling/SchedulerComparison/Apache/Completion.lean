import SchedulerComparison.Apache.Window

/-!
# The HTTP client completes

In the runs of the HTTP client in which its calls succeed and nobody is killed (`NoFault`) the two
processes never wait for each other in a circle, and the only thing that the client ever waits for
is the server: to read, or after all requests have been sent to send or to close its side.
`completes` says so for every server: the client takes a number of steps that is bounded by the
number of its requests and the bytes that it is sent, it can go on until both processes are gone
unless it waits for the server, and at the end all has been sent and received and the total is
logged.

What holds at each point in any run is in `State.Kept`, and what holds only when nothing fails is in
`State.Faultless`.
-/

open Transition

namespace HttpClient

/-! ## Runs in which nothing fails -/

/-- The call of the parent succeeds, and a write takes something. -/
def ParentPoint.Succeeds (receiver : Int) : ParentPoint → Int → Prop
  | .fork, ret | .sendWrite _ _ _, ret => 0 < ret
  | .setAffinity, ret | .setScheduler, ret => 0 ≤ ret
  | .writeStart, ret => ret = 1
  | .readReady, ret | .shutdown, ret | .readEnd, ret => ret ≠ -1
  | .wait, ret => ret = receiver
  | .log, ret => ret = 0
  | _, _ => True

/-- The call of the child succeeds. -/
def ChildPoint.Succeeds : ChildPoint → Int → Prop
  | .setAffinity, ret | .setScheduler, ret => 0 ≤ ret
  | .readStart, ret | .recv _, ret => ret ≠ -1
  | .writeReady, ret => ret = 1
  | .writeEnd, ret => ret = 8
  | _, _ => True

instance (receiver : Int) (l : ParentPoint) (ret : Int) : Decidable (l.Succeeds receiver ret) := by
  cases l <;> unfold ParentPoint.Succeeds <;> infer_instance

instance (l : ChildPoint) (ret : Int) : Decidable (l.Succeeds ret) := by
  cases l <;> unfold ChildPoint.Succeeds <;> infer_instance

/-- No call fails, and nobody is killed. The server does what it likes. -/
def NoFault (s : State) : Event → Prop
  | .parent ret => s.parent.Succeeds s.receiver ret
  | .child ret => s.child.Succeeds ret
  | .killParent | .killChild => False
  | .serverReads _ | .serverSends _ | .serverCloses | .tick _ => True

instance (s : State) : ∀ e, Decidable (NoFault s e)
  | .parent ret => inferInstanceAs (Decidable (s.parent.Succeeds s.receiver ret))
  | .child ret => inferInstanceAs (Decidable (s.child.Succeeds ret))
  | .killParent | .killChild => .isFalse id
  | .serverReads _ | .serverSends _ | .serverCloses | .tick _ => .isTrue trivial

/-! ## What holds in every run -/

/-- What holds in every run: which ends stay open, that the stream is at its end once the child has
seen it, and that the times are not negative. -/
structure State.Kept (s : State) : Prop where
  allEnds : s.parent = .sleep ∨ s.parent = .fork → s.parentAlive = true → s.parentEnds = .all
  parentEnds : s.parentAlive = true →
    s.parentEnds.parentToChild1 = true ∧ s.parentEnds.childToParent0 = true
  childEnds : s.childAlive = true →
    s.childEnds.parentToChild0 = true ∧ s.childEnds.childToParent1 = true
  sawEof : s.child.sawEof = true → s.serverClosed = true ∧ s.incoming = []
  clock : s.clock < 2 ^ 63
  start : ∀ x, s.start = some x → 0 ≤ x.toInt
  recvDone : ∀ x, s.recvDone = some x → 0 ≤ x.toInt

section
variable {n : Int} {s s' : State} {e : Event}

/-- The parent goes on to a control point and holds its ends. -/
theorem State.Kept.parent {l : ParentPoint} {parentToChild childToParent sent : List UInt8}
    {shut : Bool} {room : Nat} {endTime : BitVec 64} {logged : Option Int} (h : s.Kept)
    (hl : l = .sleep ∨ l = .fork → s.parent = .sleep) :
    State.Kept { s with
      parent := l, parentToChild, childToParent, sent, shut, room, endTime, logged } :=
  { h with allEnds := fun hp => h.allEnds (.inl (hl hp)) }

/-- The parent is gone. -/
theorem State.Kept.parentToGone (h : s.Kept) (rest : List UInt8) :
    State.Kept { s with childToParent := rest }.parentGone :=
  { h with
    allEnds := fun _ halive => Bool.noConfusion halive
    parentEnds := fun halive => Bool.noConfusion halive }

/-- The next call of the parent keeps it. -/
theorem parent_kept (h : s.Kept) (ha : s.parentAlive = true) (hm : ParentMoves n s s') :
    s'.Kept := by
  cases hm with
  | gone rest => exact h.parentToGone rest
  | slept hp => exact h.parent fun _ => hp
  | forked hp =>
    have hends := h.allEnds (.inr hp) ha
    exact { h with
      allEnds := fun hl => by simp at hl
      childEnds := fun _ => by
        show s.parentEnds.parentToChild0 = true ∧ s.parentEnds.childToParent1 = true
        rw [hends]
        exact ⟨rfl, rfl⟩
      sawEof := fun hl => Bool.noConfusion hl }
  | closedRead | closedWrite => exact { h with allEnds := fun hl => by simp at hl }
  | started hp =>
    exact { h with
      allEnds := fun hl => by simp at hl
      start := fun x hx => by
        cases hx
        exact (toInt_now h.clock).symm ▸ Int.natCast_nonneg _ }
  | forkFailed | pinned | scheduled | wroteStart | ready | sends | sentAll | wrote | wroteLast
  | shut | ended | waited | logged | notLogged =>
    exact h.parent fun hl => by simp at hl

/-- The next call of the child keeps it. -/
theorem child_kept (h : s.Kept) (hm : ChildMoves s s') : s'.Kept := by
  cases hm with
  | gone rest => exact { h with childEnds := fun halive => Bool.noConfusion halive }
  | pinned | scheduled | closedWrite | closedRead | started | wroteReady | received =>
    exact { h with sawEof := fun hl => Bool.noConfusion hl }
  | sawEof hp hempty hclosed => exact { h with sawEof := fun _ => ⟨hclosed, hempty⟩ }
  | tookRecvDone hp =>
    exact { h with
      sawEof := fun _ => h.sawEof (by rw [hp]; rfl)
      recvDone := fun x hx => by
        cases hx
        exact (toInt_now h.clock).symm ▸ Int.natCast_nonneg _ }
  | wroteEnd hp => exact { h with sawEof := fun _ => h.sawEof (by rw [hp]; rfl) }

/-- Every step keeps it. -/
theorem kept_step (h : s.Kept) (hs : step n s e = some s') : s'.Kept := by
  cases moves_of_step hs with
  | parent halive hm => exact parent_kept h halive hm
  | child _ hm => exact child_kept h hm
  | killParent => exact h.parentToGone _
  | killChild => exact { h with childEnds := fun halive => Bool.noConfusion halive }
  | serverReads => exact { h with }
  | serverSends hopen =>
    exact { h with
      sawEof := fun hl => absurd (hopen.symm.trans (h.sawEof hl).1) Bool.false_ne_true }
  | serverCloses => exact { h with sawEof := fun hl => ⟨rfl, (h.sawEof hl).2⟩ }
  | tick hlt => exact { h with clock := hlt }

theorem reach_kept {C : State → Event → Prop} (h : Reach (step n) C start s) : s.Kept :=
  h.invariant ⟨fun _ _ => rfl, fun _ => ⟨rfl, rfl⟩, fun halive => Bool.noConfusion halive,
    fun hl => Bool.noConfusion hl, by decide, (fun _ hx => by cases hx), fun _ hx => by cases hx⟩
    fun _ _ _ hi _ hs => kept_step hi hs

/-! ## What holds when nothing fails -/

/-- The child has not read the start message. -/
def ChildPoint.waitsStart : ChildPoint → Bool
  | .setAffinity | .setScheduler | .closeWrite | .closeRead | .readStart => true
  | _ => false

/-- Both processes have done what they had to do, and the total is logged. -/
structure State.Done (n : Int) (s : State) : Prop where
  finished : s.child = .finished
  childGone : s.childAlive = false
  sent : s.sent = requests n.toNat
  shut : s.shut = true
  logged : ∃ total, s.logged = some total ∧ s.IsTotal total

/-- What holds at a control point of the parent when nothing fails. -/
def State.Meets (n : Int) (s : State) : ParentPoint → Prop
  | .sleep | .fork => s.parentToChild = [] ∧ s.childAlive = false
  | .setAffinity | .setScheduler | .closeRead | .closeWrite | .writeStart =>
    s.parentToChild = [] ∧ s.child.waitsStart = true
  | .readReady => s.child ≠ .unborn ∧ (s.child.waitsStart = true → s.parentToChild ≠ [])
  | .takeStart => True
  | .sendHead _ | .shutdown => s.start ≠ none
  | .sendWrite _ remaining _ => s.start ≠ none ∧ 0 < remaining
  | .readEnd | .wait => s.start ≠ none ∧ s.shut = true
  | .log => s.start ≠ none ∧ s.shut = true ∧ s.childAlive = false
  | .returned => s.Done n

/-- What holds when nothing fails: a process is gone only at its end. -/
structure State.Faultless (n : Int) (s : State) : Prop where
  parentGone : s.parentAlive = false → s.parent = .returned
  childGone : s.childAlive = false → s.child = .unborn ∨ s.child = .finished
  meets : s.Meets n s.parent

/-- The parent goes on. -/
theorem State.Faultless.parent {l : ParentPoint} {ends : Ends} {childToParent sent : List UInt8}
    {start : Option (BitVec 64)} {atStart : Option SocketUse} {endTime : BitVec 64}
    {shut : Bool} {room : Nat} {logged : Option Int} (h : s.Faultless n)
    (ha : s.parentAlive = true)
    (hl : State.Meets n { s with childToParent, sent, start, shut, room, endTime, logged } l) :
    State.Faultless n { s with
      parent := l, parentEnds := ends, childToParent, sent, start, atStart, shut, room, endTime,
      logged } := by
  refine ⟨fun hc => absurd (hc.symm.trans ha) Bool.false_ne_true, h.childGone, ?_⟩
  cases l with
  | returned => exact ⟨hl.finished, hl.childGone, hl.sent, hl.shut, hl.logged⟩
  | _ => exact hl

/-- While the child is alive, its end of the pipe to the parent is open. -/
theorem State.Kept.open (h : s.Kept) (ha : s.childAlive = true) : s.childToParentOpen = true := by
  rw [State.childToParentOpen, (h.childEnds ha).2, Bool.or_true]

/-- Where the parent reads the ready byte, the byte is there, or it waits for a child that is on its
way. -/
theorem ready_or_waits (hinv : Inv s) (hk : s.Kept) (h : s.Faultless n) (ha : s.parentAlive = true)
    (hp : s.parent = .readReady) : s.childToParent.take 1 = readyMsg ∧ s.childToParent ≠ [] ∨
      (s.childToParent = [] ∧ s.childToParentOpen = true) ∧ s.childAlive = true ∧
        s.child.isReady = false := by
  have hpipe : s.childToParent = s.fromChild := hinv.framedAt ha hp
  have hmeets := h.meets
  rw [hp] at hmeets
  cases hready : s.child.isReady with
  | true =>
    refine .inl ?_
    rw [hpipe, State.fromChild, if_pos hready]
    exact ⟨rfl, List.cons_ne_nil _ _⟩
  | false =>
    have halive : s.childAlive = true := by
      by_contra hgone
      obtain hborn | hfinished := h.childGone (Bool.eq_false_iff.2 hgone)
      · exact hmeets.1 hborn
      · rw [hfinished] at hready
        cases hready
    exact .inr ⟨⟨hpipe.trans (State.fromChild_of_not_isReady hready), hk.open halive⟩, halive,
      rfl⟩

/-- Where the parent reads the end time, the time is there, or it waits for a child that has not
written it. -/
theorem end_or_waits (hinv : Inv s) (hk : s.Kept) (h : s.Faultless n) (ha : s.parentAlive = true)
    (hp : s.parent = .readEnd) : s.childToParent.length = 8 ∨
      (s.childToParent = [] ∧ s.childToParentOpen = true) ∧ s.childAlive = true ∧
        s.child.isReady = true ∧ s.child ≠ .finished := by
  have hframed : s.fromChild = readyMsg ++ s.childToParent := hinv.framedAt ha hp
  have hready : s.child.isReady = true := (hinv.atParent hp).2
  by_cases hfinished : s.child = .finished
  · obtain ⟨x, hx⟩ := Option.ne_none_iff_exists'.1 (hinv.atChild hfinished).2
    rw [State.fromChild, if_pos hready, if_pos hfinished, hx, List.append_cancel_left_eq] at hframed
    exact .inl (hframed ▸ Bytes.length_int64 x)
  · have halive : s.childAlive = true := by
      by_contra hgone
      obtain hborn | hend := h.childGone (Bool.eq_false_iff.2 hgone)
      · rw [hborn] at hready
        cases hready
      · exact hfinished hend
    rw [State.fromChild_of_not_finished hfinished, if_pos hready] at hframed
    have hempty : s.childToParent = [] := List.append_cancel_left (hframed.symm.trans
      (List.append_nil _).symm)
    exact .inr ⟨⟨hempty, hk.open halive⟩, halive, hready, hfinished⟩

/-- The next call of the parent, when it succeeds. -/
theorem parent_faultless {ret : Int} (hinv : Inv s) (hk : s.Kept) (hsent : s.SentAt n s.parent)
    (h : s.Faultless n) (ha : s.parentAlive = true) (hC : s.parent.Succeeds s.receiver ret)
    (hs : parentStep n s ret = some s') : s'.Faultless n := by
  have hl := h.meets
  cases hp : s.parent <;> rw [hp] at hC hl hsent <;> simp only [parentStep, hp] at hs
  case sleep | closeRead | closeWrite =>
    cases hs
    exact h.parent ha hl
  case fork =>
    have hpos : 0 < ret := hC
    rw [if_neg (by omega), if_pos hpos] at hs
    cases hs
    exact ⟨fun hc => absurd (hc.symm.trans ha) Bool.false_ne_true, fun hc => Bool.noConfusion hc,
      hl.1, rfl⟩
  case setAffinity | setScheduler =>
    rw [if_neg (Int.not_lt.2 (show 0 ≤ ret from hC))] at hs
    cases hs
    exact h.parent ha hl
  case writeStart =>
    rw [if_pos (show ret = 1 from hC)] at hs
    split at hs <;> cases hs
    refine ⟨fun hc => absurd (hc.symm.trans ha) Bool.false_ne_true, h.childGone, ?_, fun _ => ?_⟩
    · intro hborn
      have hwaits : s.child.waitsStart = true := hl.2
      rw [show s.child = .unborn from hborn] at hwaits
      cases hwaits
    · show s.parentToChild ++ startMsg ≠ []
      exact List.append_ne_nil_of_right_ne_nil _ (List.cons_ne_nil _ _)
  case readReady =>
    rw [if_neg (show ret ≠ -1 from hC)] at hs
    obtain ⟨⟨ready, rest⟩, hread, rfl⟩ := Option.map_eq_some_iff.1 hs
    obtain ⟨hbytes, -⟩ | ⟨hblocked, -⟩ := ready_or_waits hinv hk h ha hp
    · obtain ⟨rfl, rfl⟩ := readPipe_eq_some hread
      dsimp only
      rw [if_pos hbytes]
      exact h.parent ha trivial
    · rw [readPipe_eq_none.2 hblocked] at hread
      cases hread
  case takeStart =>
    cases hs
    exact h.parent ha (Option.some_ne_none _)
  case sendHead total =>
    cases hs
    split
    · exact h.parent ha ⟨hl, msg_length_pos⟩
    · exact h.parent ha hl
  case sendWrite total remaining curr =>
    have hpos : 0 < ret := hC
    rw [if_neg (by omega)] at hs
    split at hs <;> cases hs
    split
    · next hrest => exact h.parent ha ⟨hl.1, hrest⟩
    · exact h.parent ha hl.1
  case shutdown =>
    rw [if_neg (show ret ≠ -1 from hC)] at hs
    cases hs
    exact h.parent ha ⟨hl, rfl⟩
  case readEnd =>
    rw [if_neg (show ret ≠ -1 from hC)] at hs
    obtain ⟨⟨bytes, rest⟩, hread, rfl⟩ := Option.map_eq_some_iff.1 hs
    obtain hlen | ⟨hblocked, -⟩ := end_or_waits hinv hk h ha hp
    · obtain ⟨rfl, rfl⟩ := readPipe_eq_some hread
      have htake : (s.childToParent.take 8).length = 8 := by
        rw [List.length_take, hlen, Nat.min_self]
      dsimp only
      rw [if_pos htake]
      exact h.parent ha hl
    · rw [readPipe_eq_none.2 hblocked] at hread
      cases hread
  case wait =>
    rw [if_pos (show ret = s.receiver from hC)] at hs
    split at hs <;> cases hs
    next hgone => exact h.parent ha ⟨hl.1, hl.2, Bool.eq_false_iff.2 hgone⟩
  case log =>
    obtain ⟨hfinished, hdone⟩ := hinv.atParent hp
    obtain ⟨ticks, hticks, hs⟩ := Option.bind_eq_some_iff.1 hs
    obtain ⟨total, htotal, hs⟩ := Option.bind_eq_some_iff.1 hs
    rw [if_pos (show ret = 0 from hC)] at hs
    cases hs
    exact h.parent ha ⟨hfinished, hl.2.2, hsent, hl.2.1, total, rfl, ticks, s.endTime, hticks,
      hdone, eq_of_totalNanosec htotal⟩
  case returned =>
    cases hs
    exact ⟨fun _ => hp, h.childGone, by
      show State.Meets n _ s.parent
      rw [hp]
      exact ⟨hl.finished, hl.childGone, hl.sent, hl.shut, hl.logged⟩⟩

/-- While the child is alive, so is the parent. -/
theorem State.Faultless.parentAlive (h : s.Faultless n) (ha : s.childAlive = true) :
    s.parentAlive = true := by
  by_contra hgone
  have hmeets := h.meets
  rw [h.parentGone (Bool.eq_false_iff.2 hgone)] at hmeets
  exact Bool.false_ne_true (hmeets.childGone.symm.trans ha)

/-- A step of the child keeps what holds of the parent. -/
theorem State.Meets.child {l : ParentPoint} (h : s.Meets n l) (ha : s.childAlive = true)
    (hstart : s'.start = s.start) (hshut : s'.shut = s.shut) (hborn : s'.child ≠ .unborn)
    (hwaits : s.child.waitsStart = true → s.parentToChild = [] →
      s'.parentToChild = [] ∧ s'.child.waitsStart = true)
    (hkeep : s'.child.waitsStart = true →
      s.child.waitsStart = true ∧ s'.parentToChild = s.parentToChild) : s'.Meets n l := by
  have hgone : ¬ s.childAlive = false := fun hc => absurd (hc.symm.trans ha) Bool.false_ne_true
  cases l with
  | sleep | fork => exact absurd h.2 hgone
  | setAffinity | setScheduler | closeRead | closeWrite | writeStart => exact hwaits h.2 h.1
  | readReady =>
    refine ⟨hborn, fun hw => ?_⟩
    obtain ⟨hw, hpipe⟩ := hkeep hw
    rw [hpipe]
    exact h.2 hw
  | takeStart => trivial
  | sendHead | shutdown => exact hstart.trans_ne h
  | sendWrite => exact ⟨hstart.trans_ne h.1, h.2⟩
  | readEnd | wait => exact ⟨hstart.trans_ne h.1, hshut.trans h.2⟩
  | log => exact absurd h.2.2 hgone
  | returned => exact absurd h.childGone hgone

/-- The child goes on. -/
theorem State.Faultless.child (h : s.Faultless n) (ha : s.childAlive = true)
    (halive : s'.childAlive = s.childAlive) (hparent : s'.parentAlive = s.parentAlive)
    (hpoint : s'.parent = s.parent) (hstart : s'.start = s.start) (hshut : s'.shut = s.shut)
    (hborn : s'.child ≠ .unborn)
    (hwaits : s.child.waitsStart = true → s.parentToChild = [] →
      s'.parentToChild = [] ∧ s'.child.waitsStart = true)
    (hkeep : s'.child.waitsStart = true →
      s.child.waitsStart = true ∧ s'.parentToChild = s.parentToChild) : s'.Faultless n := by
  refine ⟨fun hc => hpoint.trans (h.parentGone (hparent.symm.trans hc)), fun hc => ?_, ?_⟩
  · exact absurd (hc.symm.trans (halive.trans ha)) Bool.false_ne_true
  · rw [hpoint]
    exact h.meets.child ha hstart hshut hborn hwaits hkeep

/-- The next call of the child, when it succeeds. -/
theorem child_faultless {ret : Int} (hk : s.Kept) (h : s.Faultless n) (ha : s.childAlive = true)
    (hC : s.child.Succeeds ret) (hs : childStep s ret = some s') : s'.Faultless n := by
  -- past the start message the child has nothing to do with that pipe
  have past : ∀ {s' : State}, s.child.waitsStart = false → s'.childAlive = s.childAlive →
      s'.parentAlive = s.parentAlive → s'.parent = s.parent → s'.start = s.start →
      s'.shut = s.shut → s'.child ≠ .unborn → s'.child.waitsStart = false → s'.Faultless n := by
    intro s' hl halive hparent hpoint hstart hshut hborn hl'
    exact h.child ha halive hparent hpoint hstart hshut hborn
      (fun hw => absurd (hl.symm.trans hw) Bool.false_ne_true)
      fun hw => absurd (hl'.symm.trans hw) Bool.false_ne_true
  cases hp : s.child <;> rw [hp] at hC <;> simp only [childStep, hp] at hs
  case unborn => cases hs
  case setAffinity | setScheduler =>
    rw [if_neg (Int.not_lt.2 (show 0 ≤ ret from hC))] at hs
    cases hs
    exact h.child ha rfl rfl rfl rfl rfl (by rintro ⟨⟩) (fun _ hpipe => ⟨hpipe, rfl⟩)
      fun _ => ⟨by rw [hp]; rfl, rfl⟩
  case closeWrite | closeRead =>
    cases hs
    exact h.child ha rfl rfl rfl rfl rfl (by rintro ⟨⟩) (fun _ hpipe => ⟨hpipe, rfl⟩)
      fun _ => ⟨by rw [hp]; rfl, rfl⟩
  case readStart =>
    rw [if_neg (show ret ≠ -1 from hC)] at hs
    obtain ⟨⟨start, rest⟩, hread, rfl⟩ := Option.map_eq_some_iff.1 hs
    have hopen : s.parentToChildOpen = true := by
      rw [State.parentToChildOpen, (hk.parentEnds (h.parentAlive ha)).1, Bool.true_or]
    have hbytes : s.parentToChild ≠ [] := by
      intro hempty
      rw [readPipe_eq_none.2 ⟨hempty, hopen⟩] at hread
      cases hread
    obtain ⟨rfl, rfl⟩ := readPipe_eq_some hread
    have htake : (s.parentToChild.take 1).length = 1 := by
      rw [List.length_take]
      exact Nat.min_eq_left (List.length_pos_iff.2 hbytes)
    dsimp only
    rw [if_pos htake]
    exact h.child ha rfl rfl rfl rfl rfl (by rintro ⟨⟩) (fun _ hempty => absurd hempty hbytes)
      fun hw => Bool.noConfusion hw
  case writeReady =>
    rw [if_pos (show ret = 1 from hC)] at hs
    split at hs <;> cases hs
    exact past (by rw [hp]; rfl) rfl rfl rfl rfl rfl (by rintro ⟨⟩) rfl
  case recv total =>
    rw [if_neg (show ret ≠ -1 from hC)] at hs
    split at hs
    · split at hs <;> cases hs
      exact past (by rw [hp]; rfl) rfl rfl rfl rfl rfl (by rintro ⟨⟩) rfl
    · split at hs
      · split at hs <;> cases hs
        exact past (by rw [hp]; rfl) rfl rfl rfl rfl rfl (by rintro ⟨⟩) rfl
      · cases hs
  case takeRecvDone =>
    cases hs
    exact past (by rw [hp]; rfl) rfl rfl rfl rfl rfl (by rintro ⟨⟩) rfl
  case writeEnd =>
    rw [if_pos (show ret = 8 from hC)] at hs
    split at hs
    · obtain ⟨x, -, rfl⟩ := Option.map_eq_some_iff.1 hs
      exact past (by rw [hp]; rfl) rfl rfl rfl rfl rfl (by rintro ⟨⟩) rfl
    · cases hs
  case finished =>
    cases hs
    refine ⟨h.parentGone, fun _ => .inr hp, ?_⟩
    have hl := h.meets
    show State.Meets n _ s.parent
    cases hpoint : s.parent <;> rw [hpoint] at hl
    case sleep | fork => exact ⟨hl.1, rfl⟩
    case log => exact ⟨hl.1, hl.2.1, rfl⟩
    case returned => exact ⟨hl.finished, rfl, hl.sent, hl.shut, hl.logged⟩
    all_goals exact hl

/-- What the server does, and the time that passes, keep it. -/
theorem State.Faultless.outside {room clock : Nat} {incoming : List UInt8} {serverClosed : Bool}
    (h : s.Faultless n) :
    State.Faultless n { s with room, incoming, serverClosed, clock } := by
  refine ⟨h.parentGone, h.childGone, ?_⟩
  have hl := h.meets
  show State.Meets n _ s.parent
  cases hpoint : s.parent <;> rw [hpoint] at hl
  case returned => exact ⟨hl.finished, hl.childGone, hl.sent, hl.shut, hl.logged⟩
  all_goals exact hl

/-- What holds in a run in which nothing fails. -/
theorem reach_faultless (hr : Reach (step n) NoFault start s) :
    Inv s ∧ s.Kept ∧ s.SentAt n s.parent ∧ s.Faultless n := by
  have hfree {s : State} (hr : Reach (step n) NoFault start s) : Reach (step n) Free start s :=
    hr.invariant .refl fun _ _ _ hi _ hs => hi.tail trivial hs
  refine ⟨reach_inv hr, reach_kept hr, reach_sentAt (hfree hr), ?_⟩
  induction hr with
  | refl => exact ⟨fun hc => Bool.noConfusion hc, fun _ => .inl rfl, rfl, rfl⟩
  | @tail s s' e hr hC hs ih =>
    have hinv := reach_inv hr
    have hk := reach_kept hr
    cases e with
    | parent ret =>
      rw [step] at hs
      split at hs
      · next ha => exact parent_faultless hinv hk (reach_sentAt (hfree hr)) ih ha hC hs
      · cases hs
    | child ret =>
      rw [step] at hs
      split at hs
      · next ha => exact child_faultless hk ih ha hC hs
      · cases hs
    | killParent | killChild => exact hC.elim
    | serverReads =>
      cases hs
      exact ih.outside
    | serverSends | serverCloses | tick =>
      rw [step] at hs
      split at hs <;> cases hs
      exact ih.outside

/-! ## What is left to do -/

/-- The calls that the parent has left, and those of the child that it still forks. -/
def ParentPoint.rest (n : Int) : ParentPoint → Nat
  | .sleep => n.toNat * (msg.length + 2) + 26
  | .fork => n.toNat * (msg.length + 2) + 25
  | .setAffinity => n.toNat * (msg.length + 2) + 14
  | .setScheduler => n.toNat * (msg.length + 2) + 13
  | .closeRead => n.toNat * (msg.length + 2) + 12
  | .closeWrite => n.toNat * (msg.length + 2) + 11
  | .writeStart => n.toNat * (msg.length + 2) + 10
  | .readReady => n.toNat * (msg.length + 2) + 9
  | .takeStart => n.toNat * (msg.length + 2) + 8
  | .sendHead total => total.toNat * (msg.length + 2) + 6
  | .sendWrite total remaining _ => (total.toNat - 1) * (msg.length + 2) + remaining + 7
  | .shutdown => 5
  | .readEnd => 4
  | .wait => 3
  | .log => 2
  | .returned => 1

/-- The calls that the child has left, but for the reads of the socket. -/
def ChildPoint.rest : ChildPoint → Nat
  | .unborn => 0
  | .setAffinity => 10
  | .setScheduler => 9
  | .closeWrite => 8
  | .closeRead => 7
  | .readStart => 6
  | .writeReady => 5
  | .recv _ => 4
  | .takeRecvDone => 3
  | .writeEnd => 2
  | .finished => 1

/-- What is left to do for the client: its calls, and the bytes that have come. -/
def State.rest (n : Int) (s : State) : Nat :=
  (if s.parentAlive then s.parent.rest n else 0) + (if s.childAlive then s.child.rest else 0) +
    s.incoming.length

/-- The parent has a call left. -/
theorem ParentPoint.rest_pos (l : ParentPoint) : 0 < l.rest n := by
  cases l <;> exact Nat.succ_pos _

/-- A step of the parent from one control point to another. -/
theorem State.rest_parent (ha : s.parentAlive = true) (halive : s'.parentAlive = true)
    (hc : s'.childAlive = s.childAlive) (hchild : s'.child = s.child)
    (hincoming : s'.incoming = s.incoming) (hlt : s'.parent.rest n < s.parent.rest n) :
    s'.rest n < s.rest n := by
  rw [State.rest, State.rest, if_pos ha, if_pos halive, hc, hchild, hincoming]
  omega

/-- Every call of the parent leaves less to do, but for a write that takes nothing. -/
theorem rest_parent (hmeets : s.Meets n s.parent) (ha : s.parentAlive = true)
    (hm : ParentMoves n s s') (hmoves : s'.parentAlive = true → s'.parent ≠ s.parent) :
    s'.rest n < s.rest n := by
  have hgo : ∀ {l : ParentPoint}, s.parent = l →
      (s'.parentAlive = true → s'.childAlive = s.childAlive → s'.child = s.child →
        s'.incoming = s.incoming → s'.parent.rest n < l.rest n → s'.rest n < s.rest n) := by
    intro l hp halive hc hchild hincoming hlt
    exact State.rest_parent ha halive hc hchild hincoming (hp ▸ hlt)
  cases hm with
  | gone rest =>
    have hpos := s.parent.rest_pos (n := n)
    show (0 + (if s.childAlive then s.child.rest else 0) + s.incoming.length) < s.rest n
    rw [State.rest, if_pos ha]
    omega
  | slept hp | pinned hp | scheduled hp | closedRead hp | closedWrite hp | wroteStart hp
  | ready hp | shut hp | ended hp | waited hp | logged hp | notLogged hp =>
    exact hgo hp ha rfl rfl rfl (Nat.lt_succ_self _)
  | started hp =>
    refine hgo hp ha rfl rfl rfl ?_
    simp only [ParentPoint.rest]
    omega
  | forkFailed hp =>
    refine hgo hp ha rfl rfl rfl ?_
    simp only [State.parentAt, ParentPoint.rest]
    omega
  | forked hp =>
    rw [hp] at hmeets
    have hgone : ¬ s.childAlive = true := fun hc => Bool.false_ne_true (hmeets.2.symm.trans hc)
    rw [State.rest, State.rest, if_pos ha, if_pos ha, if_neg hgone, hp]
    simp only [ParentPoint.rest, ChildPoint.rest, if_true]
    omega
  | @sends total hp hpos =>
    obtain ⟨m, hm⟩ := Nat.exists_eq_add_of_lt (show 0 < total.toNat by omega)
    refine hgo hp ha rfl rfl rfl ?_
    have htotal : total.toNat = m + 1 := by omega
    simp only [State.parentAt, ParentPoint.rest, htotal, Nat.add_sub_cancel, Nat.succ_mul]
    omega
  | sentAll hp hpos =>
    refine hgo hp ha rfl rfl rfl ?_
    simp only [State.parentAt, ParentPoint.rest]
    omega
  | @wrote total remaining curr k hp hk =>
    have hne := hmoves ha
    rw [hp] at hne
    have hpos : k ≠ 0 := by
      rintro rfl
      exact hne rfl
    refine hgo hp ha rfl rfl rfl ?_
    simp only [ParentPoint.rest]
    omega
  | @wroteLast total remaining curr hp =>
    have hsucc : (total - 1).toNat = total.toNat - 1 := by omega
    refine hgo hp ha rfl rfl rfl ?_
    simp only [ParentPoint.rest, hsucc]
    omega

/-- A step of the child from one control point to another. -/
theorem State.rest_child (ha : s.childAlive = true) (halive : s'.childAlive = true)
    (hp : s'.parentAlive = s.parentAlive) (hparent : s'.parent = s.parent)
    (hlt : s'.child.rest + s'.incoming.length < s.child.rest + s.incoming.length) :
    s'.rest n < s.rest n := by
  rw [State.rest, State.rest, if_pos ha, if_pos halive, hp, hparent]
  omega

/-- Every call of the child leaves less to do. -/
theorem rest_child (ha : s.childAlive = true) (hm : ChildMoves s s')
    (hborn : s.child ≠ .unborn) : s'.rest n < s.rest n := by
  have hgo : ∀ {l : ChildPoint}, s.child = l → s'.childAlive = true →
      s'.parentAlive = s.parentAlive → s'.parent = s.parent →
      s'.child.rest + s'.incoming.length < l.rest + s.incoming.length → s'.rest n < s.rest n :=
    fun hp halive hparent hpoint hlt => State.rest_child ha halive hparent hpoint (hp ▸ hlt)
  cases hm with
  | gone rest =>
    have hpos : 0 < s.child.rest := by
      cases hp : s.child with
      | unborn => exact absurd hp hborn
      | _ => exact Nat.succ_pos _
    show (if s.parentAlive then s.parent.rest n else 0) + 0 + s.incoming.length < s.rest n
    rw [State.rest, if_pos ha]
    omega
  | pinned hp | scheduled hp | closedWrite hp | closedRead hp | started hp | wroteReady hp
  | sawEof hp | tookRecvDone hp | wroteEnd hp =>
    exact hgo hp ha rfl rfl (Nat.add_lt_add_right (Nat.lt_succ_self _) _)
  | received hp hk hlen =>
    refine hgo hp ha rfl rfl ?_
    simp only [ChildPoint.rest, List.length_drop]
    omega

/-- A successful call of the parent moves it on, or it is gone. -/
theorem parent_moves_on {ret : Int} (hC : s.parent.Succeeds s.receiver ret)
    (hs : parentStep n s ret = some s') (halive : s'.parentAlive = true) :
    s'.parent ≠ s.parent := by
  intro heq
  have hm := parentMoves_of_step hs
  cases hm with
  | gone => cases halive
  | @wrote total remaining curr k hp hk =>
    rw [hp] at hC
    have hpos : 0 < ret := hC
    simp only [parentStep, hp] at hs
    rw [if_neg (by omega)] at hs
    split at hs
    · have hparent := congrArg State.parent (Option.some.inj hs)
      rw [heq, hp] at hparent
      dsimp only at hparent
      split at hparent
      · injection hparent
        omega
      · cases hparent
    · cases hs
  | slept hp | forkFailed hp | forked hp | pinned hp | scheduled hp | closedRead hp
  | closedWrite hp | wroteStart hp | ready hp | started hp | sends hp | sentAll hp
  | wroteLast hp | shut hp | ended hp | waited hp | logged hp | notLogged hp =>
    rw [hp] at heq
    cases heq

/-! ## Nobody waits for ever -/

/-- A call of the parent or the child. -/
def Event.isCall : Event → Bool
  | .parent _ | .child _ => true
  | _ => false

/-- The bytes that the server sends. -/
def Event.bytes : Event → Nat
  | .serverSends bytes => bytes.length
  | _ => 0

/-- A call of one of the two processes is possible and succeeds. -/
def State.Goes (n : Int) (s : State) : Prop :=
  ∃ e s', e.isCall = true ∧ NoFault s e ∧ step n s e = some s'

/-- The client waits for the server: the requests have been sent, and the child has read all that
has come. -/
structure State.WaitsForServer (n : Int) (s : State) : Prop where
  parent : s.parent = .readEnd
  child : ∃ total, s.child = .recv total
  sent : s.sent = requests n.toNat
  shut : s.shut = true
  allRead : s.incoming = []
  notClosed : s.serverClosed = false

/-- The client waits for the server to read: the parent cannot write to the socket, and the child is
at the end of its work or has read all that has come. -/
structure State.WaitsForRoom (s : State) : Prop where
  parent : ∃ total remaining curr, s.parent = .sendWrite total remaining curr
  full : s.room = 0
  child : s.childAlive = false ∨
    (∃ total, s.child = .recv total) ∧ s.incoming = [] ∧ s.serverClosed = false

/-- There is a byte to read, and `total_bytes` is `INT_MAX`. -/
def State.Overlong (s : State) : Prop :=
  ∃ total, s.child = .recv total ∧ 2 ^ 31 ≤ total + 1 ∧ s.incoming ≠ []

/-- The parent makes its next call. -/
theorem goes_parent (ret : Int) (ha : s.parentAlive = true)
    (hC : s.parent.Succeeds s.receiver ret) (hs : (parentStep n s ret).isSome = true) :
    s.Goes n := by
  obtain ⟨s', hs⟩ := Option.isSome_iff_exists.1 hs
  exact ⟨.parent ret, s', rfl, hC, (if_pos ha).trans hs⟩

/-- The child makes its next call. -/
theorem goes_child (ret : Int) (ha : s.childAlive = true) (hC : s.child.Succeeds ret)
    (hs : (childStep s ret).isSome = true) : s.Goes n := by
  obtain ⟨s', hs⟩ := Option.isSome_iff_exists.1 hs
  exact ⟨.child ret, s', rfl, hC, (if_pos ha).trans hs⟩

/-- A child that is alive can go on, unless it waits for the start message, for the server, or
has read too much. -/
theorem child_goes (hinv : Inv s) (hk : s.Kept) (h : s.Faultless n) (ha : s.childAlive = true)
    (hborn : s.child ≠ .unborn) (hstart : s.child = .readStart → s.parentToChild ≠ []) :
    s.Goes n ∨ s.Overlong ∨
      ∃ total, s.child = .recv total ∧ s.incoming = [] ∧ s.serverClosed = false := by
  have hends := (hk.parentEnds (h.parentAlive ha)).2
  have hopen : (s.parentEnds.childToParent0 || s.childEnds.childToParent0) = true := by
    rw [hends, Bool.true_or]
  cases hp : s.child with
  | unborn => exact absurd hp hborn
  | setAffinity | setScheduler =>
    refine .inl (goes_child 0 ha (by rw [hp]; exact Int.le_refl 0) ?_)
    simp only [childStep, hp, Option.isSome_some]
  | closeWrite | closeRead | takeRecvDone | finished =>
    refine .inl (goes_child 0 ha (by rw [hp]; trivial) ?_)
    simp only [childStep, hp, Option.isSome_some]
  | readStart =>
    refine .inl (goes_child 1 ha (by rw [hp]; exact (by decide : (1 : Int) ≠ -1)) ?_)
    simp only [childStep, hp, readPipe, if_neg (hstart hp)]
    rfl
  | writeReady =>
    refine .inl (goes_child 1 ha (by rw [hp]; rfl) ?_)
    simp only [childStep, hp, if_pos hopen]
    rfl
  | writeEnd =>
    obtain ⟨x, hx⟩ := Option.ne_none_iff_exists'.1 (hinv.atChild hp).2
    refine .inl (goes_child 8 ha (by rw [hp]; rfl) ?_)
    simp only [childStep, hp, if_pos hopen, hx]
    rfl
  | recv total =>
    by_cases hempty : s.incoming = []
    · cases hclosed : s.serverClosed with
      | false => exact .inr (.inr ⟨total, rfl, hempty, rfl⟩)
      | true =>
        refine .inl (goes_child 0 ha (by rw [hp]; exact (by decide : (0 : Int) ≠ -1)) ?_)
        simp [childStep, hp, hempty, hclosed]
    · by_cases hlong : 2 ^ 31 ≤ total + 1
      · exact .inr (.inl ⟨total, hp, hlong, hempty⟩)
      · refine .inl (goes_child 1 ha (by rw [hp]; exact (by decide : (1 : Int) ≠ -1)) ?_)
        have hlen : (1 : Int) ≤ s.incoming.length := by
          have := List.length_pos_iff.2 hempty
          omega
        have hread : (0 : Int) < 1 ∧ (1 : Int) ≤ 256 ∧ (1 : Int) ≤ s.incoming.length :=
          ⟨by decide, by decide, hlen⟩
        have hsum : total + (1 : Int).toNat < 2 ^ 31 := Nat.lt_of_not_le hlong
        simp only [childStep, hp]
        rw [if_neg (by decide), if_neg (by decide), if_pos hread, if_pos hsum]
        rfl

/-- A child that has sent its ready byte does not wait for the parent. -/
theorem ready_child_goes (hinv : Inv s) (hk : s.Kept) (h : s.Faultless n) (ha : s.childAlive = true)
    (hready : s.child.isReady = true) : s.Goes n ∨ s.Overlong ∨
      ∃ total, s.child = .recv total ∧ s.incoming = [] ∧ s.serverClosed = false := by
  refine child_goes hinv hk h ha (fun hx => ?_) (fun hx => ?_)
  · rw [hx] at hready
    cases hready
  · rw [hx] at hready
    cases hready

/-- The difference of two times that are not negative does not overflow. -/
theorem totalNanosec_isSome {endTime ticks : BitVec 64} (hend : 0 ≤ endTime.toInt)
    (hticks : 0 ≤ ticks.toInt) : ∃ total, totalNanosec endTime ticks = some total := by
  have hlt := endTime.toInt_lt
  have hlt' := ticks.toInt_lt
  exact ⟨_, if_pos ⟨by omega, by omega⟩⟩

/-- While the parent is alive, one of the two processes can go on, unless the client waits for the
server or the child has read too much. -/
theorem goes_on (hinv : Inv s) (hk : s.Kept) (hsent : s.SentAt n s.parent) (h : s.Faultless n)
    (ha : s.parentAlive = true) :
    s.Goes n ∨ s.Overlong ∨ s.WaitsForRoom ∨ s.WaitsForServer n := by
  have hl := h.meets
  cases hp : s.parent <;> rw [hp] at hl hsent
  case sleep | closeRead | closeWrite | takeStart | sendHead | returned =>
    refine .inl (goes_parent 0 ha (by rw [hp]; trivial) ?_)
    simp only [parentStep, hp, Option.isSome_some]
  case fork =>
    refine .inl (goes_parent 1 ha (by rw [hp]; exact Int.one_pos) ?_)
    simp only [parentStep, hp]
    rfl
  case setAffinity | setScheduler =>
    refine .inl (goes_parent 0 ha (by rw [hp]; exact Int.le_refl 0) ?_)
    simp only [parentStep, hp, Option.isSome_some]
  case shutdown =>
    refine .inl (goes_parent 0 ha (by rw [hp]; exact (by decide : (0 : Int) ≠ -1)) ?_)
    simp only [parentStep, hp, Option.isSome_some]
  case writeStart =>
    have hchild : s.childAlive = true := by
      by_contra hgone
      have hwaits := hl.2
      obtain hx | hx := h.childGone (Bool.eq_false_iff.2 hgone) <;> rw [hx] at hwaits <;>
        cases hwaits
    have hopen : (s.parentEnds.parentToChild0 || s.childEnds.parentToChild0) = true := by
      rw [(hk.childEnds hchild).1, Bool.or_true]
    refine .inl (goes_parent 1 ha (by rw [hp]; rfl) ?_)
    simp only [parentStep, hp, if_pos hopen]
    rfl
  case sendWrite total remaining curr =>
    have hpos : 0 < remaining := hl.2
    rcases Nat.eq_zero_or_pos s.room with hfull | hroom
    · have hready : s.child.isReady = true := hinv.at_parent.isReady (.inr hl.1)
      cases hchild : s.childAlive with
      | false => exact .inr (.inr (.inl ⟨⟨_, _, _, hp⟩, hfull, .inl hchild⟩))
      | true =>
        obtain hgo | hlong | ⟨total, hx, hread, hopen⟩ := ready_child_goes hinv hk h hchild hready
        · exact .inl hgo
        · exact .inr (.inl hlong)
        · exact .inr (.inr (.inl ⟨⟨_, _, _, hp⟩, hfull, .inr ⟨⟨total, hx⟩, hread, hopen⟩⟩))
    · refine .inl (goes_parent 1 ha (by rw [hp]; exact Int.one_pos) ?_)
      simp only [parentStep, hp]
      rw [if_neg (by decide), if_pos ⟨by decide, by omega, by omega⟩]
      rfl
  case readReady =>
    obtain ⟨hbytes, hne⟩ | ⟨-, hchild, hready⟩ := ready_or_waits hinv hk h ha hp
    · refine .inl (goes_parent 1 ha (by rw [hp]; exact (by decide : (1 : Int) ≠ -1)) ?_)
      simp only [parentStep, hp, readPipe, if_neg hne]
      rfl
    · have hstart (hx : s.child = .readStart) : s.parentToChild ≠ [] := hl.2 (by rw [hx]; rfl)
      obtain hgo | hlong | ⟨total, hx, -⟩ := child_goes hinv hk h hchild hl.1 hstart
      · exact .inl hgo
      · exact .inr (.inl hlong)
      · rw [hx] at hready
        cases hready
  case readEnd =>
    obtain hlen | ⟨-, hchild, hready, -⟩ := end_or_waits hinv hk h ha hp
    · have hne : s.childToParent ≠ [] := by
        intro hempty
        rw [hempty] at hlen
        cases hlen
      refine .inl (goes_parent 8 ha (by rw [hp]; exact (by decide : (8 : Int) ≠ -1)) ?_)
      simp only [parentStep, hp, readPipe, if_neg hne]
      rfl
    · obtain hgo | hlong | ⟨total, hx, hread, hopen⟩ := ready_child_goes hinv hk h hchild hready
      · exact .inl hgo
      · exact .inr (.inl hlong)
      · exact .inr (.inr (.inr ⟨hp, ⟨total, hx⟩, hsent, hl.2, hread, hopen⟩))
  case wait =>
    obtain ⟨hfinished, -⟩ := hinv.atParent hp
    cases hchild : s.childAlive with
    | true =>
      refine .inl (goes_child 0 hchild (by rw [hfinished]; trivial) ?_)
      simp only [childStep, hfinished, Option.isSome_some]
    | false =>
      refine .inl (goes_parent s.receiver ha (by rw [hp]; rfl) ?_)
      simp [parentStep, hp, hchild]
  case log =>
    obtain ⟨-, hdone⟩ := hinv.atParent hp
    obtain ⟨ticks, hticks⟩ := Option.ne_none_iff_exists'.1 hl.1
    obtain ⟨total, htotal⟩ := totalNanosec_isSome (hk.recvDone _ hdone) (hk.start _ hticks)
    refine .inl (goes_parent 0 ha (by rw [hp]; rfl) ?_)
    simp [parentStep, hp, hticks, htotal]

/-! ## The theorem -/

/-- The client completes when nothing fails. It takes a bounded number of steps beside those that
the server makes necessary by what it sends; one of its processes can go on until they are gone,
unless all that is missing is the server's; and then the requests are sent, the stream is read to
its end and the total is logged. -/
structure Completes (n : Int) : Prop where
  bounded : ∃ bound, ∀ es s, exec (step n) NoFault start es = some s →
    es.countP Event.isCall ≤ bound + (es.map Event.bytes).sum
  goesOn : ∀ s, Reach (step n) NoFault start s → s.parentAlive = true →
    s.Goes n ∨ s.Overlong ∨ s.WaitsForRoom ∨ s.WaitsForServer n
  done : ∀ s, Reach (step n) NoFault start s → s.parentAlive = false →
    s.Done n ∧ s.serverClosed = true ∧ s.incoming = []

/-- Every step leaves less to do, but for what the server sends. -/
theorem rest_step (hr : Reach (step n) NoFault start s) (hC : NoFault s e)
    (hs : step n s e = some s') :
    s'.rest n + (if e.isCall then 1 else 0) ≤ s.rest n + e.bytes := by
  obtain ⟨-, -, -, hf⟩ := reach_faultless hr
  cases e with
  | parent ret =>
    rw [step] at hs
    split at hs
    · next ha =>
      exact rest_parent hf.meets ha (parentMoves_of_step hs) (parent_moves_on hC hs)
    · cases hs
  | child ret =>
    rw [step] at hs
    split at hs
    · next ha =>
      have hborn : s.child ≠ .unborn := by
        intro hp
        rw [childStep, hp] at hs
        cases hs
      exact rest_child ha (childMoves_of_step hs) hborn
    · cases hs
  | killParent | killChild => exact hC.elim
  | serverSends bytes =>
    rw [step] at hs
    split at hs <;> cases hs
    have hlen : (s.incoming ++ bytes).length = s.incoming.length + bytes.length :=
      List.length_append
    show (if s.parentAlive then s.parent.rest n else 0) +
      (if s.childAlive then s.child.rest else 0) + (s.incoming ++ bytes).length ≤
        s.rest n + bytes.length
    rw [State.rest]
    omega
  | serverReads bytes =>
    cases hs
    exact Nat.le_refl _
  | serverCloses | tick =>
    rw [step] at hs
    split at hs <;> cases hs
    exact Nat.le_refl _

/-- For every server and every number of requests, the client completes when nothing fails. -/
theorem completes (numRequests : Int) : Completes numRequests := by
  refine ⟨⟨start.rest numRequests, fun es s h => ?_⟩, fun s hr ha => ?_, fun s hr hgone => ?_⟩
  · exact exec_kind_le_add (I := fun s => Reach (step numRequests) NoFault start s)
      (State.rest numRequests) Event.isCall Event.bytes
      (fun s e s' hr hC hs => ⟨hr.tail hC hs, rest_step hr hC hs⟩) es .refl h
  · obtain ⟨hinv, hk, hsent, hf⟩ := reach_faultless hr
    exact goes_on hinv hk hsent hf ha
  · obtain ⟨-, hk, -, hf⟩ := reach_faultless hr
    have hdone := hf.meets
    rw [hf.parentGone hgone] at hdone
    exact ⟨hdone, hk.sawEof (by rw [hdone.finished]; rfl)⟩

end

end HttpClient
