import SchedulerComparison.Hackbench.Faultless
import SchedulerComparison.Hackbench.WorkerTable

/-!
# A stopped hackbench ends

After SIGINT or SIGTERM, `main` signals the counted workers and waits for as many. `stops` shows
that it never waits in vain, whatever failed before and however many signals follow: in every run it
makes a bounded number of statements (`State.left`, where a signal that is still caught pays for
the statements that it leads to), and until it has exited it can make the next one, or a worker that
was sent SIGTERM can die of it. When it exits and every worker was counted, all were waited for.

A signal may come at any time but two (`Orderly`). One is while `main` cleans up after a group that
failed, with workers that are not counted: there `main` starts again to wait for the counted ones,
some of which it has waited for, and then it can wait for a worker that was never signalled
(`cleanup_stopped_hangs`). The other is behind the `free` of the table, where a signal that is
caught makes `main` read the freed table (`freed_table_read`).
-/

open Transition Finset

namespace Hackbench

/-! ## What is left to do -/

/-- The statements behind `sigcatcher`, at most. -/
def signalLeft : Nat := 3 * 2 ^ 32 + 15

/-- What `main` and the new workers have left to do behind group `i`, at most. -/
def Options.leftBehind (o : Options) (i : UInt32) : Nat :=
  (o.numGroups.toNat - i.toNat - 1) * (16 * o.numFds.toNat + 6) + 5 * 2 ^ 32 + 22

/-- The statements that `main` has left when it catches no other signal, and the steps of the
workers that it still forks, at most. -/
def MainPoint.left (o : Options) : MainPoint → Nat
  | .groupHead i =>
    (o.numGroups.toNat - i.toNat) * (16 * o.numFds.toNat + 6) + 5 * 2 ^ 32 + 22
  | .sndMalloc i => 16 * o.numFds.toNat + o.leftBehind i + 5
  | .receiverHead i j =>
    9 * (o.numFds.toNat - j.toNat) + 7 * o.numFds.toNat + o.leftBehind i + 4
  | .receiverMalloc i j =>
    9 * (o.numFds.toNat - j.toNat) + 7 * o.numFds.toNat + o.leftBehind i + 3
  | .receiverPipe i j => 9 * (o.numFds.toNat - j.toNat) + 7 * o.numFds.toNat + o.leftBehind i + 2
  | .receiverFork i j => 9 * (o.numFds.toNat - j.toNat) + 7 * o.numFds.toNat + o.leftBehind i + 1
  | .receiverStore i j _ =>
    9 * (o.numFds.toNat - j.toNat - 1) + 7 * o.numFds.toNat + o.leftBehind i + 5
  | .senderHead i j => 7 * (o.numFds.toNat - j.toNat) + o.leftBehind i + 3
  | .senderFork i j => 7 * (o.numFds.toNat - j.toNat) + o.leftBehind i + 2
  | .senderStore i j _ => 7 * (o.numFds.toNat - j.toNat - 1) + o.leftBehind i + 4
  | .groupReturned i _ => o.leftBehind i + 2
  | .count i _ => o.leftBehind i + 1
  | .setScheduler => 5 * 2 ^ 32 + 21
  | .readyHead i => 2 * (2 ^ 32 - i.toNat) + 3 * 2 ^ 32 + 18
  | .readReady i => 2 * (2 ^ 32 - i.toNat) + 3 * 2 ^ 32 + 17
  | .startTime => 3 * 2 ^ 32 + 17
  | .wake => 3 * 2 ^ 32 + 16
  | .sigcatcher _ => signalLeft
  | .longjmped => 3 * 2 ^ 32 + 14
  | .ignoreTerm => 3 * 2 ^ 32 + 13
  | .reapAll => 3 * 2 ^ 32 + 12
  | .reap n _ _ => 3 * n.toNat + 6
  | .kill k n _ => (n.toNat - k) + 2 * n.toNat + 5
  | .waitHead k n _ => 2 * (n.toNat - k.toNat) + 4
  | .wait k n _ => 2 * (n.toNat - k.toNat) + 3
  | .report => 3
  | .freeTab => 2
  | .exit => 1
  | .exited _ => 0

/-- The signal would still be caught. -/
def State.catchable (s : State) (sig : Sig) : Nat :=
  if s.catches sig = true ∧ s.point ≠ .sigcatcher sig then 1 else 0

/-- What `main` and the workers have left to do outside of the loops, at most. -/
def State.left (o : Options) (s : State) : Nat :=
  s.point.left o + (s.catchable .int + s.catchable .term) * signalLeft + s.workersRest

/-- What the heads of the loops of `main` have checked. -/
def State.Guarded (s : State) : MainPoint → Prop
  | .readReady i => i.toNat < s.totalChildren.toNat
  | .wait k n _ => k.toNat < n.toNat
  | _ => True

/-- A step of `main` or of a worker outside of its loop. -/
def Event.works : Event → Bool
  | .data _ | .deliver _ => false
  | _ => true

section
variable {o : Options} {s s' : State} {e : Event} {k : Nat} {x : Phase} {ret : Int}

/-- The groups that are left, and the one that `main` is in. -/
theorem Options.left_groups {i : UInt32} (hi : i.toNat < o.numGroups.toNat) :
    (o.numGroups.toNat - i.toNat) * (16 * o.numFds.toNat + 6) + 5 * 2 ^ 32 + 22 =
      16 * o.numFds.toNat + 6 + o.leftBehind i := by
  obtain ⟨m, hm⟩ := Nat.exists_eq_add_of_lt hi
  have hleft : o.numGroups.toNat - i.toNat = m + 1 := by omega
  rw [Options.leftBehind, hleft, Nat.add_sub_cancel, Nat.succ_mul]
  omega

/-- A signal that is sent changes no phase. -/
theorem State.workersRest_sendTerm (s : State) (pid : Int) :
    (s.sendTerm pid).workersRest = s.workersRest :=
  sum_congr rfl fun k _ => by rw [State.phase_sendTerm]

/-- A `fork` leaves less to do, whether it succeeds or not. -/
theorem State.left_fork {func : Func} {l : Int → MainPoint}
    (hl : ∀ pid, (l pid).left o + 4 < s.point.left o) (hs : s.fork func ret l = some s') :
    s'.point.left o + s'.workersRest < s.point.left o + s.workersRest := by
  have hlt := hl ret
  rcases State.fork_cases hs with ⟨rfl, rfl⟩ | ⟨hret, -⟩
  · show (l (-1)).left o + s.workersRest < _
    omega
  · obtain ⟨hpoint, -, hworkers⟩ := State.workersRest_fork hret hs
    rw [hpoint, hworkers]
    omega

/-- The next statement of `main` leaves less to do. -/
theorem left_main (hc : Counting o s.totalChildren s.point) (hg : s.Guarded s.point)
    (hs : mainStep o s ret = some s') :
    s'.point.left o + s'.workersRest < s.point.left o + s.workersRest := by
  have hgoto : ∀ {l : MainPoint}, l.left o < s.point.left o →
      (s.goto l).point.left o + (s.goto l).workersRest < s.point.left o + s.workersRest :=
    fun hlt => Nat.add_lt_add_right hlt _
  have hwidth : ∀ n : UInt32, n.toNat < 2 ^ 32 := fun n => n.toNat_lt
  have htotal := hwidth s.totalChildren
  cases hp : s.point <;> rw [hp] at hc hg hgoto <;> simp only [mainStep, hp] at hs
  case groupHead i =>
    cases hs
    refine hgoto ?_
    split
    · next hi =>
      have := Options.left_groups (UInt32.lt_iff_toNat_lt.1 hi)
      simp only [MainPoint.left]
      omega
    · simp only [MainPoint.left]
      omega
  case receiverFork i j | senderFork i j =>
    obtain ⟨-, -, hj⟩ := hc
    rw [← hp]
    refine State.left_fork (fun pid => ?_) hs
    rw [hp]
    simp only [MainPoint.left]
    omega
  case receiverStore i j pid | senderStore i j pid =>
    obtain ⟨-, -, hj⟩ := hc
    have hsucc : (j + 1).toNat = j.toNat + 1 := toNat_succ hj
    obtain ⟨-, rfl⟩ := State.store_cases hs
    refine hgoto ?_
    split <;>
    · simp only [MainPoint.left]
      omega
  case groupReturned i c =>
    cases hs
    refine hgoto ?_
    have hreap := hwidth (s.totalChildren + c)
    split <;>
    · simp only [MainPoint.left, Options.leftBehind]
      omega
  case count i c =>
    have hi : (i + 1).toNat = i.toNat + 1 := toNat_succ hc.1
    cases hs
    refine hgoto ?_
    simp only [MainPoint.left, Options.leftBehind, hi, ← Nat.sub_sub]
    omega
  case readReady i =>
    have hlt : i.toNat < s.totalChildren.toNat := hg
    have hi : (i + 1).toNat = i.toNat + 1 := toNat_succ hlt
    split at hs
    · split at hs <;> cases hs
      refine hgoto ?_
      simp only [MainPoint.left]
      omega
    · cases hs
      refine hgoto ?_
      simp only [MainPoint.left]
      omega
  case kill k n after =>
    split at hs
    · split at hs <;> cases hs
      show MainPoint.left o (.kill (k + 1) n after) + (s.sendTerm (s.childTab k)).workersRest < _
      rw [State.workersRest_sendTerm]
      refine hgoto ?_
      simp only [MainPoint.left]
      omega
    · cases hs
      refine hgoto ?_
      simp only [MainPoint.left, UInt32.toNat_zero]
      omega
  case reap n dokill after =>
    split at hs <;> cases hs <;> refine hgoto ?_ <;>
    · simp only [MainPoint.left, UInt32.toNat_zero]
      omega
  case wake =>
    split at hs <;> cases hs <;> refine hgoto ?_ <;>
    · simp only [MainPoint.left]
      omega
  case waitHead k n after =>
    cases hs
    refine hgoto ?_
    split
    · simp only [MainPoint.left]
      omega
    · split <;>
      · simp only [MainPoint.left]
        omega
  case wait k n after =>
    have hsucc : (k + 1).toNat = k.toNat + 1 := toNat_succ hg
    have hlt : MainPoint.left o (.waitHead (k + 1) n after) <
        MainPoint.left o (.wait k n after) := by
      have : k.toNat < n.toNat := hg
      simp only [MainPoint.left]
      omega
    obtain ⟨-, -, rfl⟩ | ⟨i, hi, -, hzombie, rfl⟩ := State.waitWorker_cases hs
    · exact hgoto hlt
    · have hreap := State.workersRest_setPhase (s := s) (x := .reaped) hi
      rw [hzombie] at hreap
      have hone : Phase.rest .zombie = 1 := rfl
      have hzero : Phase.rest .reaped = 0 := rfl
      show MainPoint.left o (.waitHead (k + 1) n after) + (s.setPhase i .reaped).workersRest < _
      omega
  case exited => cases hs
  case sigcatcher | longjmped | ignoreTerm | reapAll | startTime | report | exit =>
    cases hs
    refine hgoto ?_
    simp only [MainPoint.left, signalLeft]
    omega
  case freeTab =>
    split at hs <;> cases hs
    refine hgoto ?_
    simp only [MainPoint.left]
    omega
  all_goals
    cases hs
    refine hgoto ?_
    split <;>
    · simp only [MainPoint.left, UInt32.toNat_zero, Options.leftBehind]
      omega

/-- A statement of `main` leaves the handlers as they are, or ignores a signal: the one that was
caught, in `sigcatcher`. -/
theorem main_catches (hs : mainStep o s ret = some s') :
    s'.catches = s.catches ∧ (∀ sig, s.point ≠ .sigcatcher sig) ∨
      ∃ sig', s'.catches = Function.update s.catches sig' false ∧
        ∀ sig, s.point = .sigcatcher sig → sig = sig' := by
  cases hp : s.point <;> simp only [mainStep, hp] at hs
  case sigcatcher sig =>
    cases hs
    exact .inr ⟨sig, rfl, by rintro _ ⟨⟩; rfl⟩
  case longjmped | ignoreTerm =>
    cases hs
    exact .inr ⟨_, rfl, by rintro _ ⟨⟩⟩
  case reap =>
    split at hs <;> cases hs
    · exact .inr ⟨_, rfl, by rintro _ ⟨⟩⟩
    · exact .inl ⟨rfl, by rintro _ ⟨⟩⟩
  case receiverFork | senderFork =>
    obtain ⟨-, rfl⟩ | ⟨-, -, -, rfl⟩ := State.fork_cases hs <;> exact .inl ⟨rfl, by rintro _ ⟨⟩⟩
  case receiverStore | senderStore =>
    obtain ⟨-, rfl⟩ := State.store_cases hs
    exact .inl ⟨rfl, by rintro _ ⟨⟩⟩
  case readReady | kill =>
    split at hs
    · split at hs <;> cases hs
      exact .inl ⟨rfl, by rintro _ ⟨⟩⟩
    · cases hs
      exact .inl ⟨rfl, by rintro _ ⟨⟩⟩
  case wake | freeTab =>
    split at hs <;> cases hs <;> exact .inl ⟨rfl, by rintro _ ⟨⟩⟩
  case wait =>
    obtain ⟨-, -, rfl⟩ | ⟨i, -, -, -, rfl⟩ := State.waitWorker_cases hs <;>
      exact .inl ⟨rfl, by rintro _ ⟨⟩⟩
  case exited => cases hs
  all_goals
    cases hs
    exact .inl ⟨rfl, by rintro _ ⟨⟩⟩

/-- A statement of `main` makes no signal catchable. -/
theorem catchable_main (hs : mainStep o s ret = some s') (sig : Sig) :
    s'.catchable sig ≤ s.catchable sig := by
  have hle : (s'.catches sig = true → s.catches sig = true ∧ s.point ≠ .sigcatcher sig) →
      s'.catchable sig ≤ s.catchable sig := by
    intro h
    unfold State.catchable
    split
    · next hc => rw [if_pos (h hc.1)]
    · exact Nat.zero_le _
  refine hle fun hc => ?_
  rcases main_catches hs with ⟨hsame, hpoint⟩ | ⟨sig', hupdate, hpoint⟩
  · exact ⟨hsame ▸ hc, hpoint sig⟩
  · have hne : sig ≠ sig' := by
      rintro rfl
      rw [hupdate, Function.update_self] at hc
      cases hc
    rw [hupdate, Function.update_of_ne hne] at hc
    exact ⟨hc, fun heq => hne (hpoint sig heq)⟩

/-- A signal that is caught pays for what follows. -/
theorem left_caught {sig : Sig} (hc : s.catches sig = true) :
    (State.left o { s with point := .sigcatcher sig, signalCaught := true, delivered := true }) ≤
      s.left o := by
  refine Nat.add_le_add_right ?_ _
  by_cases hint : s.point = .sigcatcher .int
  · cases sig <;> simp [State.catchable, hint, hc, MainPoint.left]
    split <;> omega
  · by_cases hterm : s.point = .sigcatcher .term
    · cases sig <;> simp [State.catchable, hterm, hc, MainPoint.left]
      split <;> omega
    · cases sig <;> simp [State.catchable, hint, hterm, hc, MainPoint.left] <;> split <;> omega

/-- Outside of the loops of the workers every step leaves less to do, and the others no more. -/
theorem left_step (hc : Counting o s.totalChildren s.point) (hg : s.Guarded s.point)
    (hs : step o s e = some s') : s'.left o + (if e.works then 1 else 0) ≤ s.left o := by
  have hmain : ∀ {ret : Int}, mainStep o s ret = some s' → s'.left o + 1 ≤ s.left o := by
    intro ret hs
    have hlt := left_main hc hg hs
    have hcatch : (s'.catchable .int + s'.catchable .term) * signalLeft ≤
        (s.catchable .int + s.catchable .term) * signalLeft :=
      Nat.mul_le_mul_right _ (Nat.add_le_add (catchable_main hs .int) (catchable_main hs .term))
    unfold State.left
    omega
  have hphase : ∀ {k : Nat} {x : Phase}, k < s.forked → x.rest < (s.workers k).phase.rest →
      (s.setPhase k x).left o + 1 ≤ s.left o := by
    intro k x hk hlt
    have := State.workersRest_setPhase (s := s) (x := x) hk
    show s.point.left o + (s.catchable .int + s.catchable .term) * signalLeft +
      (s.setPhase k x).workersRest + 1 ≤ _
    unfold State.left
    omega
  have halive : ∀ {k : Nat}, (s.workers k).phase ≠ .zombie → (s.workers k).phase ≠ .reaped →
      Phase.rest .zombie < (s.workers k).phase.rest := by
    intro k hz hr
    cases hx : (s.workers k).phase with
    | zombie => exact absurd hx hz
    | reaped => exact absurd hx hr
    | start | polling | running => decide
  cases e with
  | main ret => exact hmain hs
  | deliver sig =>
    rw [step] at hs
    split at hs
    · cases hs
    · split at hs
      · next hcaught =>
        cases hs
        exact left_caught hcaught
      · cases hs
        exact le_refl _
  | worker k =>
    rw [step] at hs
    split at hs
    · next hx =>
      split at hs <;> cases hs
      next hk => exact hphase hk (by rw [hx]; decide)
    · next hx =>
      split at hs <;> cases hs
      next hk => exact hphase hk.1 (by rw [hx]; decide)
    · cases hs
  | data k =>
    rw [step] at hs
    split at hs <;> cases hs
    exact le_refl _
  | exit k =>
    rw [step] at hs
    split at hs <;> cases hs
    next hk => exact hphase hk.1 (by rw [hk.2]; decide)
  | fail k =>
    rw [step] at hs
    split at hs <;> cases hs
    next hk => exact hphase hk.1 (halive hk.2.1 hk.2.2)
  | term k =>
    rw [step] at hs
    split at hs <;> cases hs
    next hk => exact hphase hk.1 (halive hk.2.1 hk.2.2.1)

/-- A statement of `main` goes into a loop only behind its check. -/
theorem guarded_main (hs : mainStep o s ret = some s') : s'.Guarded s'.point := by
  cases hp : s.point <;> simp only [mainStep, hp] at hs
  case readyHead i =>
    cases hs
    dsimp only [State.goto]
    split
    · next hlt => exact UInt32.lt_iff_toNat_lt.1 hlt
    · trivial
  case waitHead k n after =>
    cases hs
    dsimp only [State.goto]
    split
    · next hlt => exact UInt32.lt_iff_toNat_lt.1 hlt
    · cases after <;> trivial
  case receiverFork | senderFork =>
    obtain ⟨-, rfl⟩ | ⟨-, -, -, rfl⟩ := State.fork_cases hs <;> trivial
  case receiverStore | senderStore =>
    obtain ⟨-, rfl⟩ := State.store_cases hs
    dsimp only
    split <;> trivial
  case readReady | kill =>
    split at hs
    · split at hs <;> cases hs
      trivial
    · cases hs
      trivial
  case reap | wake | freeTab => split at hs <;> cases hs <;> trivial
  case wait =>
    obtain ⟨-, -, rfl⟩ | ⟨i, -, -, -, rfl⟩ := State.waitWorker_cases hs <;> trivial
  case exited => cases hs
  case sigcatcher | longjmped | ignoreTerm | reapAll | startTime | report | exit | count =>
    cases hs
    trivial
  all_goals
    cases hs
    dsimp only [State.goto]
    split <;> trivial

theorem guarded_step (h : s.Guarded s.point) (hs : step o s e = some s') : s'.Guarded s'.point := by
  cases moves_of_step hs with
  | main hs => exact guarded_main hs
  | caught => trivial
  | ignored | ready | woken | data | exit | fail | term => exact h

/-- In every run there is a bounded number of steps outside of the loops of the workers. -/
theorem works_le {es : List Event} (h : exec (step o) Free start es = some s) :
    es.countP Event.works ≤ start.left o :=
  exec_kind_le (I := fun s => Counting o s.totalChildren s.point ∧ s.Guarded s.point)
    (State.left o) Event.works
    (fun _ _ _ hi _ hs => ⟨⟨(step_advances hi.1 hs).1, guarded_step hi.2 hs⟩,
      left_step hi.1 hi.2 hs⟩) es ⟨counting_start o, trivial⟩ h

end

/-! ## Signalling and reaping -/

/-- `main` goes through the first `n` entries of the table: it has waited for at most `m` workers if
not all are counted, the entries are the pids of the first workers, and where it goes on to its
report no signal takes it away from uncounted workers. -/
structure Core.Ends (o : Options) (c : Core) (reaped m n : Nat) (after : After) : Prop where
  waited : c.forked = c.counted ∨ reaped ≤ m
  tab : c.Tab n
  size : n ≤ o.tabSize.toNat
  settled : after = .report → c.forked = c.counted ∨ ∀ sig, c.catches sig = false

/-- What holds at a control point of `main` when as many workers were waited for. -/
def Core.Ending (o : Options) (c : Core) (reaped : Nat) : MainPoint → Prop
  | .sigcatcher _ | .longjmped => c.Ends o reaped 0 c.counted .barf
  | .ignoreTerm => c.Ends o reaped 0 c.counted .barf ∧ c.catches .int = false
  | .reapAll => c.Ends o reaped 0 c.counted .report
  | .reap n _ after => c.Ends o reaped 0 n.toNat after
  | .kill k n after => c.Ends o reaped 0 n.toNat after ∧ c.Sent k
  | .waitHead k n after | .wait k n after =>
    c.Ends o reaped k.toNat n.toNat after ∧ (c.Sent n.toNat ∨ c.Calm) ∧ k.toNat ≤ reaped
  | .report | .freeTab | .exit => (c.forked = c.counted ∨ ∀ sig, c.catches sig = false) ∧
      (c.forked = c.counted → c.forked ≤ reaped ∧ c.counted ≤ o.tabSize.toNat)
  | .exited _ => c.delivered = true → c.forked = c.counted → c.forked ≤ reaped
  | _ => reaped = 0

/-- `main` cleans up after a group that failed. -/
def MainPoint.cleansUp : MainPoint → Bool
  | .reap _ _ .barf | .kill _ _ .barf | .waitHead _ _ .barf | .wait _ _ .barf => true
  | _ => false

/-- No signal is caught while `main` cleans up and not every worker is counted, or behind the `free`
of the table. -/
def Orderly (s : State) : Event → Prop
  | .deliver sig => s.catches sig = true →
    (s.point.cleansUp = true → s.forked = s.totalChildren.toNat) ∧ s.tabFreed = false
  | _ => True

instance (s : State) : ∀ e, Decidable (Orderly s e)
  | .deliver _ => inferInstanceAs (Decidable (_ → (_ → _) ∧ _))
  | .main _ | .worker _ | .data _ | .exit _ | .fail _ | .term _ => .isTrue trivial

section
variable {o : Options} {s s' : State} {c : Core} {e : Event} {k r m n : Nat} {x : Phase} {ret : Int}
  {l : MainPoint} {after : After}

/-- A worker that goes on and is not waited for. -/
theorem State.reaped_setPhase_eq (h : (s.workers k).phase ≠ .reaped) (hx : x ≠ .reaped) :
    (s.setPhase k x).reaped = s.reaped := by
  refine congrArg card (filter_congr fun i _ => ?_)
  rw [State.phase_setPhase]
  split
  · next hi =>
    subst hi
    exact ⟨fun heq => absurd heq hx, fun heq => absurd heq h⟩
  · rfl

/-- A step of a worker reaps at most that one. -/
theorem State.reaped_setPhase_le : (s.setPhase k x).reaped ≤ s.reaped + 1 := by
  refine le_trans (card_le_card (t := insert k ((range s.forked).filter fun i =>
    (s.workers i).phase = .reaped)) fun i hi => ?_) (card_insert_le _ _)
  obtain ⟨hi, hx⟩ := mem_filter.1 hi
  rw [State.phase_setPhase] at hx
  split at hx
  · next hik => exact mem_insert.2 (.inl hik)
  · exact mem_insert.2 (.inr (mem_filter.2 ⟨hi, hx⟩))

/-- A new worker was not waited for. -/
theorem State.reaped_fork {func : Func} {f : Int → MainPoint} (hs : s.fork func ret f = some s') :
    s'.reaped = s.reaped := by
  obtain ⟨-, rfl⟩ | ⟨-, -, -, rfl⟩ := State.fork_cases hs
  · rfl
  · show ((range (s.forked + 1)).filter fun i => (Function.update s.workers s.forked
      ({ pid := ret, func := func } : Worker) i).phase = .reaped).card = s.reaped
    rw [range_add_one, filter_insert, if_neg (by rw [Function.update_self]; rintro ⟨⟩)]
    refine congrArg card (filter_congr fun i hi => ?_)
    rw [Function.update_of_ne (Nat.ne_of_lt (mem_range.1 hi))]

theorem State.reaped_sendTerm (s : State) (pid : Int) : (s.sendTerm pid).reaped = s.reaped :=
  congrArg card (filter_congr fun i _ => by rw [State.phase_sendTerm])

/-- Until it reaps them, `main` is creating groups, or has created all of them. -/
theorem Inv.building (h : Inv o c l) (hl : l.part ≠ .reaping) : ∃ p q, c.Building o p q := by
  have of_storing : ∀ {p pid}, c.Storing o p pid → ∃ p q, c.Building o p q := by
    rintro p pid (⟨-, hb⟩ | ⟨-, hb, -⟩)
    · exact ⟨_, _, hb⟩
    · exact ⟨_, _, hb⟩
  have hat := h.at_point
  cases l with
  | groupHead | sndMalloc | setScheduler | readyHead | readReady | startTime | wake =>
    exact ⟨_, _, hat⟩
  | receiverHead | receiverMalloc | receiverPipe | receiverFork | senderHead | senderFork =>
    exact ⟨_, _, hat.2⟩
  | receiverStore | senderStore => exact of_storing hat.2
  | groupReturned | count =>
    obtain ⟨f, hb, -⟩ := hat
    exact ⟨_, _, hb⟩
  | _ => exact absurd rfl hl

/-- There the counted workers are in the table, in their order. -/
theorem Inv.listed (hw : 2 * o.numFds.toNat < 2 ^ 32) (h : Inv o c l) (hl : l.part ≠ .reaping) :
    c.Tab c.counted ∧ c.counted ≤ o.tabSize.toNat := by
  obtain ⟨p, q, hb⟩ := h.building hl
  have htab := hb.tab (hb.exact hw)
  exact ⟨fun i hi => htab i (Nat.lt_add_right _ hi), (Nat.le_add_right _ _).trans hb.size⟩

/-- Going through the counted entries. -/
theorem Inv.ends (hw : 2 * o.numFds.toNat < 2 ^ 32) (h : Inv o c l) (hl : l.part ≠ .reaping)
    (hr : r = 0) : c.Ends o r 0 c.counted .barf :=
  ⟨.inr hr.le, (h.listed hw hl).1, (h.listed hw hl).2, fun h => by cases h⟩

/-- A statement while `main` creates the groups and starts the workers. -/
theorem ending_early (hw : 2 * o.numFds.toNat < 2 ^ 32) (h : Inv o s.core s.point)
    (hl : s.point.part ≠ .reaping) (hr : s.reaped = 0) (hs : mainStep o s ret = some s') :
    s'.core.Ending o s'.reaped s'.point := by
  have hat := h.at_point
  have hlisted := h.listed hw hl
  have hends : ∀ {after}, s.core.forked = s.core.counted →
      s.core.Ends o s.reaped 0 s.core.counted after :=
    fun hc => ⟨.inl hc, hlisted.1, hlisted.2, fun _ => .inl hc⟩
  have exact_of : ∀ {p q}, s.core.Building o p q → s.core.forked = s.core.counted + q :=
    fun hb => hb.exact hw
  cases hp : s.point <;> rw [hp] at hat hl <;> simp only [mainStep, hp] at hs
  case receiverPipe i j =>
    cases hs
    dsimp only [State.goto]
    split
    · exact hr
    · exact fun hd => absurd hd hat.2.calm.not_delivered
  case receiverFork i j | senderFork i j =>
    have hfork := State.reaped_fork hs
    obtain ⟨-, rfl⟩ | ⟨-, -, -, rfl⟩ := State.fork_cases hs <;> exact hfork.trans hr
  case receiverStore | senderStore =>
    obtain ⟨-, rfl⟩ := State.store_cases hs
    dsimp only
    split <;> exact hr
  case groupReturned i n =>
    obtain ⟨f, hb, hn⟩ := hat
    cases hs
    dsimp only [State.goto]
    split
    · next hne =>
      -- the group failed: one worker less than it has created
      have hn : n.toNat = f - 1 := (hn.resolve_left fun heq => hne heq.2).1
      have hsum : s.core.counted + n.toNat ≤ s.core.counted + f := by omega
      have hadd : (s.totalChildren + n).toNat = s.core.counted + n.toNat :=
        toNat_totalChildren_add (hsum.trans hb.size) rfl
      have htab := hb.tab (exact_of hb)
      exact ⟨.inr hr.le, fun j hj => htab j (by omega), hadd ▸ hsum.trans hb.size,
        fun h => by cases h⟩
    · exact hr
  case setScheduler =>
    have hb : s.core.Building o 0 0 := hat
    cases hs
    dsimp only [State.goto]
    split
    · exact fun hd => absurd hd hb.calm.not_delivered
    · exact hr
  case readReady i =>
    split at hs
    · split at hs <;> cases hs
      exact hr
    · cases hs
      exact hends (exact_of hat)
  case wake =>
    split at hs <;> cases hs <;> exact hends (exact_of hat)
  case count | startTime =>
    cases hs
    exact hr
  case groupHead | sndMalloc | receiverHead | receiverMalloc | senderHead | readyHead =>
    cases hs
    dsimp only [State.goto]
    split <;> exact hr
  all_goals exact absurd rfl hl

/-- Ignoring a signal changes nothing here. -/
theorem Core.Ends.ignore {sig : Sig} (h : c.Ends o r m n after) :
    Core.Ends o { c with catches := Function.update c.catches sig false } r m n after := by
  refine ⟨h.waited, h.tab, h.size, fun hafter => (h.settled hafter).imp_right fun hall sig' => ?_⟩
  by_cases heq : sig' = sig
  · exact heq ▸ Function.update_self ..
  · exact (Function.update_of_ne heq ..).trans (hall sig')

/-- `main` signals the worker whose pid is in the entry. -/
theorem ending_kill {n : UInt32} (h : s.core.Ends o r m n.toNat after) (hk : k < n.toNat)
    (hsent : s.core.Sent k) :
    ((s.sendTerm (s.childTab k)).core.Ends o r m n.toNat after) ∧
      (s.sendTerm (s.childTab k)).core.Sent (k + 1) := by
  have hpid : s.childTab k = (s.workers k).pid := h.tab k hk
  refine ⟨⟨h.waited, fun i hi => (h.tab i hi).trans (State.pid_sendTerm ..).symm, h.size,
    h.settled⟩, fun i hi => ?_⟩
  show ((s.sendTerm (s.childTab k)).workers i).signalled = true
  dsimp only [State.sendTerm]
  rcases Nat.lt_succ_iff_lt_or_eq.1 hi with hi | rfl
  · split
    · rfl
    · exact hsent i hi
  · rw [if_pos (.inl hpid.symm)]

/-- At the end of the entries, all workers were waited for if all are counted. -/
theorem Core.Reaping.all_waited {k n : UInt32} (h : c.Reaping n) (hk : k.toNat ≤ r)
    (hnot : ¬ k < n) (hc : c.forked = c.counted) : c.forked ≤ r := by
  have hn := h.all hc
  have hle := toNat_le_of_not_lt hnot
  omega

/-- A statement while `main` signals and reaps the workers. -/
theorem ending_late (hinv : Inv o s.core s.point) (hg : s.Guarded s.point)
    (hl : s.point.part = .reaping) (h : s.core.Ending o s.reaped s.point)
    (hs : mainStep o s ret = some s') : s'.core.Ending o s'.reaped s'.point := by
  have hat := hinv.at_point
  cases hp : s.point <;> rw [hp] at hat h hg hl <;> simp only [mainStep, hp] at hs
  case sigcatcher sig =>
    cases hs
    exact h.ignore
  case longjmped =>
    have hint : Function.update s.catches .int false .int = false := Function.update_self ..
    cases hs
    exact ⟨h.ignore, hint⟩
  case ignoreTerm =>
    have hall : ∀ sig, Function.update s.catches .term false sig = false := by
      intro sig
      cases sig with
      | int => exact (Function.update_of_ne (by decide) ..).trans h.2
      | term => exact Function.update_self ..
    have hends : Core.Ends o { s.core with catches := Function.update s.catches .term false }
        s.reaped 0 s.core.counted .barf := h.1.ignore
    cases hs
    exact ⟨hends.waited, hends.tab, hends.size, fun _ => .inr hall⟩
  case reapAll =>
    cases hs
    exact h
  case reap n dokill after =>
    split at hs <;> cases hs
    · exact ⟨h.ignore, fun i hi => absurd hi (Nat.not_lt_zero i)⟩
    · next hk => exact ⟨h, .inr (hat.2.resolve_left hk), Nat.zero_le _⟩
  case kill k n after =>
    split at hs
    · next hk =>
      split at hs <;> cases hs
      obtain ⟨hends, hsent⟩ := ending_kill h.1 hk h.2
      refine ⟨?_, hsent⟩
      show Core.Ends o _ (s.sendTerm (s.childTab k)).reaped 0 n.toNat after
      rw [State.reaped_sendTerm]
      exact hends
    · next hk =>
      cases hs
      refine ⟨h.1, .inl fun i hi => h.2 i (by omega), Nat.zero_le _⟩
  case waitHead k n after =>
    cases hs
    dsimp only [State.goto]
    split
    · exact h
    · next hnot =>
      cases after with
      | barf => exact fun _ hc => hat.1.all_waited h.2.2 hnot hc
      | report =>
        refine ⟨h.1.settled rfl, fun hc => ⟨hat.1.all_waited h.2.2 hnot hc, ?_⟩⟩
        have hn : n.toNat = s.core.forked := hat.1.all hc
        exact (hn.trans hc) ▸ h.1.size
  case wait k n after =>
    have hlt : k.toNat < n.toNat := hg
    have hsucc : (k + 1).toNat = k.toNat + 1 := toNat_succ hlt
    have hle : n.toNat ≤ s.forked := by
      by_cases hc : s.core.forked = s.core.counted
      · exact (hat.1.all hc).le
      · exact (hat.1.some hc).le
    obtain ⟨hends, hsent, hk⟩ := h
    have hreaped := (State.reaped_waitWorker (hlt.trans_le hle) hk hs).2.2
    have hupper : s'.reaped ≤ s.reaped + 1 ∧ s'.core = s.core ∧
        s'.point = .waitHead (k + 1) n after := by
      obtain ⟨-, -, rfl⟩ | ⟨i, -, -, -, rfl⟩ := State.waitWorker_cases hs
      · exact ⟨Nat.le_succ _, rfl, rfl⟩
      · exact ⟨State.reaped_setPhase_le (s := s), core_setPhase s i .reaped, rfl⟩
    obtain ⟨hupper, hcore, hpoint⟩ := hupper
    rw [hcore, hpoint]
    refine ⟨⟨hends.waited.imp_right fun hr => ?_, hends.tab, hends.size, hends.settled⟩, hsent, ?_⟩
    · omega
    · omega
  case report =>
    cases hs
    exact h
  case freeTab =>
    split at hs <;> cases hs
    exact h
  case exit =>
    cases hs
    exact fun _ hc => (h.2 hc).1
  case exited => cases hs
  all_goals cases hl

/-- A signal that is caught takes `main` away from workers that are not counted only before it has
begun to reap them. -/
theorem ending_caught (hw : 2 * o.numFds.toNat < 2 ^ 32) (h : Inv o c l) (he : c.Ending o r l)
    {sig : Sig} (hc : c.catches sig = true) (hl : l.isExited = false)
    (horderly : l.cleansUp = true → c.forked = c.counted) :
    c.Ends o r 0 c.counted .barf := by
  have of_counted : ∀ {n : UInt32}, c.Reaping n → n.toNat ≤ o.tabSize.toNat →
      c.forked = c.counted → c.Ends o r 0 c.counted .barf := by
    intro n hr hsize hcounted
    have hn : n.toNat = c.counted := (hr.all hcounted).trans hcounted
    exact ⟨.inl hcounted, h.tab hcounted, hn ▸ hsize, fun h => by cases h⟩
  have settled : (c.forked = c.counted ∨ ∀ sig, c.catches sig = false) →
      c.forked = c.counted := fun hs => hs.resolve_right fun hall =>
    Bool.false_ne_true ((hall sig).symm.trans hc)
  have hat := h.at_point
  cases l with
  | sigcatcher | longjmped => exact he
  | ignoreTerm => exact he.1
  | reapAll => exact ⟨he.waited, he.tab, he.size, fun h => by cases h⟩
  | reap n dokill after =>
    cases after with
    | barf => exact of_counted hat.1 he.size (horderly rfl)
    | report => exact of_counted hat.1 he.size (settled (he.settled rfl))
  | kill k n after | waitHead k n after | wait k n after =>
    cases after with
    | barf => exact of_counted hat.1 he.1.size (horderly rfl)
    | report => exact of_counted hat.1 he.1.size (settled (he.1.settled rfl))
  | report | freeTab | exit =>
    have hcounted := settled he.1
    exact ⟨.inl hcounted, h.tab hcounted, (he.2 hcounted).2, fun h => by cases h⟩
  | exited => cases hl
  | _ => exact h.ends hw Part.noConfusion he

/-- A signal that is ignored changes nothing here, as one was caught before. -/
theorem ending_ignored (he : c.Ending o r l) {sig : Sig} (hc : c.catches sig = false)
    (hl : l.isExited = false) : Core.Ending o { c with delivered := true } r l := by
  have hends : ∀ {m n after}, c.Ends o r m n after →
      Core.Ends o { c with delivered := true } r m n after :=
    fun h => ⟨h.waited, h.tab, h.size, h.settled⟩
  have hcalm : ¬ c.Calm := fun hcalm => Bool.false_ne_true (hc.symm.trans (hcalm.catches sig))
  cases l with
  | sigcatcher | longjmped | reapAll | reap => exact hends he
  | ignoreTerm | kill => exact ⟨hends he.1, he.2⟩
  | waitHead | wait => exact ⟨hends he.1, .inl (he.2.1.resolve_right hcalm), he.2.2⟩
  | exited => cases hl
  | _ => exact he

/-- What holds in the orderly runs. -/
structure State.Stopping (o : Options) (s : State) : Prop where
  inv : Inv o s.core s.point
  guarded : s.Guarded s.point
  ending : s.core.Ending o s.reaped s.point
  kept : s.TabKept

theorem stopping_start (o : Options) : start.Stopping o :=
  ⟨inv_start o, trivial, rfl, fun hf => absurd hf Bool.false_ne_true⟩

/-- Every step of an orderly run. -/
theorem stopping_step (hw : 2 * o.numFds.toNat < 2 ^ 32) (h : s.Stopping o) (hC : Orderly s e)
    (hs : step o s e = some s') : s'.Stopping o := by
  have hkept : s'.TabKept := tabKept_step h.kept (by rintro sig rfl hc; exact (hC hc).2) hs
  refine ⟨step_inv h.inv hs, guarded_step h.guarded hs, ?_, hkept⟩
  have hphase : ∀ {k : Nat} {x : Phase}, (s.workers k).phase ≠ .reaped → x ≠ .reaped →
      (s.setPhase k x).core.Ending o (s.setPhase k x).reaped s.point := by
    intro k x hk hx
    rw [core_setPhase, State.reaped_setPhase_eq hk hx]
    exact h.ending
  cases moves_of_step hs with
  | main hs =>
    by_cases hl : s.point.part = .reaping
    · exact ending_late h.inv h.guarded hl h.ending hs
    · refine ending_early hw h.inv hl ?_ hs
      have hending := h.ending
      cases hp : s.point <;> rw [hp] at hl hending <;> first | exact hending | exact absurd rfl hl
  | @caught sig hl hc =>
    have hends := ending_caught hw h.inv h.ending hc hl (hC hc).1
    exact ⟨hends.waited, hends.tab, hends.size, hends.settled⟩
  | ignored hl hc => exact ending_ignored h.ending hc hl
  | ready hk hx => exact hphase (by rw [hx]; decide) (by decide)
  | woken hk hx | exit hk hx => exact hphase (by rw [hx]; decide) (by decide)
  | fail hk hx | term hk hx => exact hphase hx (by decide)
  | data => exact h.ending

theorem reach_stopping (hw : 2 * o.numFds.toNat < 2 ^ 32)
    (h : Reach (step o) Orderly start s) : s.Stopping o :=
  h.invariant (stopping_start o) fun _ _ _ hi hC hs => stopping_step hw hi hC hs

/-! ## The theorem -/

/-- A hackbench that was sent a signal comes to its end: it makes a bounded number of steps outside
of the loops of its workers, and when the signals are orderly, `main` can always go on or wait for a
worker that dies of its SIGTERM, and if every worker is counted all were waited for at the end. -/
structure Stops (o : Options) : Prop where
  bounded : ∃ n, ∀ es s, exec (step o) Free start es = some s → es.countP Event.works ≤ n
  goesOn : ∀ s, Reach (step o) Orderly start s → s.delivered = true → s.point.isExited = false →
    (∃ ret s', step o s (.main ret) = some s') ∨ ∃ k s', step o s (.term k) = some s'
  reaped : ∀ s, Reach (step o) Orderly start s → s.delivered = true → s.point.isExited = true →
    s.forked = s.totalChildren.toNat → ∀ k < s.forked, (s.workers k).phase = .reaped

/-- The table has no more entries than there are workers. -/
theorem tabSize_le (o : Options) : o.tabSize.toNat ≤ o.workers := by
  have hworkers : o.workers = o.total := by
    rw [Options.workers, Options.total, Nat.mul_assoc, Nat.mul_comm]
  rw [tabSize_eq, UInt32.toNat_ofNat', hworkers]
  exact Nat.mod_le _ _

/-- `wait` does not return while a worker has not exited and none can be waited for. -/
theorem State.waitWorker_eq_none (hk : ∃ k < s.forked, (s.workers k).phase ≠ .reaped)
    (hno : ∀ k < s.forked, (s.workers k).phase ≠ .zombie) : s.waitWorker ret l = none := by
  unfold waitWorker
  split
  · obtain ⟨k, hk, hx⟩ := hk
    exact if_neg fun hall => hx (hall k hk)
  · rw [Option.map_eq_none_iff, List.find?_eq_none]
    intro k hk hfound
    rw [Bool.and_eq_true, beq_iff_eq, beq_iff_eq] at hfound
    exact hno k (List.mem_range.1 hk) hfound.2

/-- Where `main` waits in vain, a worker that was sent SIGTERM is alive. -/
theorem exists_dying {j n : UInt32} (h : s.Stopping o) (hp : s.point = .wait j n after)
    (hd : s.delivered = true) (hno : ∀ ret, s.waitWorker ret l = none) :
    ∃ k < s.forked, (s.workers k).phase ≠ .zombie ∧ (s.workers k).phase ≠ .reaped ∧
      (s.workers k).signalled = true := by
  have hat := h.inv.at_point
  have hending := h.ending
  have hguard := h.guarded
  rw [hp] at hat hending hguard
  have hlt : j.toNat < n.toNat := hguard
  obtain ⟨hends, hsent, -⟩ := hending
  have hsent : s.core.Sent n.toNat := hsent.resolve_right fun hcalm => hcalm.not_delivered hd
  by_cases hc : s.core.forked = s.core.counted
  · have hn : n.toNat = s.forked := hat.1.all hc
    obtain ⟨k, hk, hz, hr⟩ := exists_unfinished h.inv.distinct.pos hno
    exact ⟨k, hk, hz, hr, hsent k (hn ▸ hk)⟩
  · have hn : n.toNat < s.forked := hat.1.some hc
    have hreaped : s.reaped ≤ j.toNat := hends.waited.resolve_left hc
    -- fewer were waited for than were signalled
    obtain ⟨k, hk, hr⟩ : ∃ k < n.toNat, (s.workers k).phase ≠ .reaped := by
      by_contra hnone
      have hall : ∀ k < n.toNat, (s.workers k).phase = .reaped := fun k hk =>
        Classical.byContradiction fun hr => hnone ⟨k, hk, hr⟩
      have hle : n.toNat ≤ s.reaped := by
        rw [← card_range n.toNat]
        refine card_le_card fun k hk => mem_filter.2 ⟨?_, hall k (mem_range.1 hk)⟩
        exact mem_range.2 ((mem_range.1 hk).trans hn)
      omega
    exact ⟨k, hk.trans hn, not_zombie h.inv.distinct.pos hno k (hk.trans hn), hr, hsent k hk⟩

/-- A stopped hackbench ends when the number of its workers is an `int`. -/
theorem stops (o : Options) (h : o.workers < 2 ^ 31) : Stops o where
  bounded := ⟨start.left o, fun _ _ hrun => works_le hrun⟩
  goesOn s hr hd hl := by
    have hs := reach_stopping (fds_lt (by omega)) hr
    have hending := hs.ending
    cases hp : s.point <;> rw [hp] at hending hl
    case sigcatcher | longjmped | ignoreTerm | reapAll | waitHead | report | exit =>
      exact .inl ⟨0, _, by simp only [step, mainStep, hp]; rfl⟩
    case freeTab =>
      have hnot : s.tabFreed = false := hs.kept.not_freed (by rw [hp]; rfl)
      exact .inl ⟨0, _, by simp only [step, mainStep, hp, if_pos hnot]; rfl⟩
    case reap n dokill after =>
      refine .inl ⟨0, ?_⟩
      simp only [step, mainStep, hp]
      split <;> exact ⟨_, rfl⟩
    case kill k n after =>
      have hsize : n.toNat ≤ o.tabSize.toNat := hending.1.size
      have hle := tabSize_le o
      have hnot : s.tabFreed = false := hs.kept.not_freed (by rw [hp]; rfl)
      refine .inl ⟨0, ?_⟩
      simp only [step, mainStep, hp]
      split
      · rw [if_pos ⟨hnot, by omega⟩]
        exact ⟨_, rfl⟩
      · exact ⟨_, rfl⟩
    case wait k n after =>
      by_cases hwait : ∃ ret s', s.waitWorker ret (.waitHead (k + 1) n after) = some s'
      · obtain ⟨ret, s', hs'⟩ := hwait
        exact .inl ⟨ret, s', by simpa only [step, mainStep, hp] using hs'⟩
      · have hno : ∀ ret, s.waitWorker ret (.waitHead (k + 1) n after) = none :=
          fun ret => Option.eq_none_iff_forall_ne_some.2 fun s' hs' => hwait ⟨ret, s', hs'⟩
        obtain ⟨i, hi, hz, hx, hsig⟩ := exists_dying hs hp hd hno
        exact .inr ⟨i, s.setPhase i .zombie, if_pos ⟨hi, hz, hx, hsig⟩⟩
    case exited => cases hl
    all_goals
      obtain ⟨p, q, hb⟩ := hs.inv.building (by rw [hp]; exact Part.noConfusion)
      exact absurd hd hb.calm.not_delivered
  reaped s hr hd hl hc := by
    have hending := (reach_stopping (fds_lt (by omega)) hr).ending
    cases hp : s.point <;> rw [hp] at hending hl
    case exited => exact State.all_reaped_of_le (hending hd hc)
    all_goals cases hl

end

/-- Two groups are stopped. -/
theorem stops_twoGroups : Stops twoGroups := stops twoGroups (by decide)

/-- The sender of the second group cannot be created. While `main` waits for the first group SIGINT
is delivered, and it starts to wait for that group again. -/
def stoppedInCleanup : List Event :=
  List.map Event.main [0, 1, 0, 1, 0, 100, 0, 0, 0, 101, 0, 0, 0, 0, 0, 1, 0, 1, 0, 102, 0, 0, 0,
    -1, 0, 0, 0, 0, 0, 0, 0] ++
  Event.term 0 :: Event.main 100 :: Event.deliver .int ::
    (List.replicate 9 (Event.main 0) ++ [Event.term 1, Event.main 101, Event.main 0])

/-- Where `stoppedInCleanup` ends: `main` has waited for the two workers of the first group. -/
theorem stoppedInCleanup_ends : ∃ s, exec (step twoGroups) Free start stoppedInCleanup = some s ∧
    s.delivered = true ∧ s.point = .wait 1 2 .report ∧ s.forked = 3 ∧
    (s.workers 0).phase = .reaped ∧ (s.workers 1).phase = .reaped ∧
    (s.workers 2).phase = .start ∧ (s.workers 2).signalled = false := by
  have hend : (exec (step twoGroups) Free start stoppedInCleanup).map (fun s =>
      (s.delivered, s.point, s.forked, (List.range 3).map fun k =>
        ((s.workers k).phase, (s.workers k).signalled))) =
      some (true, .wait 1 2 .report, 3, [(.reaped, true), (.reaped, true), (.start, false)]) := by
    decide +kernel
  obtain ⟨s, hrun, heq⟩ := Option.map_eq_some_iff.1 hend
  obtain ⟨hd, hp, hforked, hworkers⟩ := by simpa only [Prod.mk.injEq] using heq
  obtain ⟨⟨h0, -⟩, ⟨h1, -⟩, h2, hsig⟩ := by
    simpa [List.range_succ] using hworkers
  exact ⟨s, hrun, hd, hp, hforked, h0, h1, h2, hsig⟩

/-- The cleanup after a failed group cannot be stopped: `main` waits for the receiver of that group,
which it has not signalled. -/
theorem cleanup_stopped_hangs : ∃ s, Reach (step twoGroups) Free start s ∧ s.delivered = true ∧
    s.point = .wait 1 2 .report ∧ (∀ ret, step twoGroups s (.main ret) = none) ∧
    ∀ k, step twoGroups s (.term k) = none := by
  obtain ⟨s, hrun, hd, hp, hforked, h0, h1, h2, hsig⟩ := stoppedInCleanup_ends
  have hworkers : ∀ k < s.forked, k = 0 ∨ k = 1 ∨ k = 2 := by omega
  refine ⟨s, .of_exec stoppedInCleanup hrun, hd, hp, fun ret => ?_, fun k => if_neg ?_⟩
  · simp only [step, mainStep, hp]
    refine State.waitWorker_eq_none ⟨2, by omega, by rw [h2]; decide⟩ fun k hk => ?_
    obtain rfl | rfl | rfl := hworkers k hk
    · rw [h0]; decide
    · rw [h1]; decide
    · rw [h2]; decide
  · rintro ⟨hk, -, hx, hs⟩
    obtain rfl | rfl | rfl := hworkers k hk
    · exact hx h0
    · exact hx h1
    · exact Bool.false_ne_true (hsig.symm.trans hs)

end Hackbench
