import SchedulerComparison.Launcher.Measurement
import SchedulerComparison.Launcher.Sweep

/-!
# Interrupted trials

`run_trial` of `hackbench_interupt.cpp` forks gzip, sleeps for three seconds, forks hackbench and
waits. The trial is interrupted when hackbench was forked before gzip exited, and the launcher did
not sleep between that exit and the `wait(NULL)` that reaped gzip (`Interrupted`). `run_trial`
writes the time whenever its first `wait(NULL)` returns the value of `test_proc_pid`; before the
second fork it does not look whether gzip is still there, and it never looks whether a fork failed.
`ForkedInTime` is the condition on the second fork, and `interrupted_exactly` shows that it is the
exact one.

The sleeps of a run are the times that `sleepEnd?` observes. The invariant is `Watched`: it says at
each control point what is known by then of the trial's gzip and hackbench (`TrialWatched`).
-/

open Posix Posix.Sys Transition

namespace Launcher

/-- The launcher sleeps between its two forks (`hackbench_interupt.cpp:53`). -/
def Point.sleeps : Point → Bool
  | .trial _ _ _ (.interuptTestProcForked _ _) => true
  | _ => false

/-- The time at which a sleep of the launcher ends with the event. -/
def sleepEnd? (s : Procs) (e : Event) : Option Nat :=
  if (s.point? launcherPid).any Point.sleeps ∧ (e.returns? launcherPid).isSome then some s.clock
  else none

/-- `t` was forked as the gzip of trial `k`, after the launcher had read the clock as `start`. -/
def GzipForked (s : Procs) (k : Nat) (t : Int) (start : Nat) : Prop :=
  ∃ T np r, s.procs.lookup t = some T ∧ T.ppid = launcherPid ∧
    T.origin = some (.trial k np r (.interuptForkTestProc start)) ∧ start < T.forkedAt

/-- `h` was forked at time `n` as the hackbench of trial `k`, where the launcher had read the clock
as `start` and held `t` in `test_proc_pid`. -/
def HackbenchForked (s : Procs) (k : Nat) (h t : Int) (start n : Nat) : Prop :=
  ∃ H np r, s.procs.lookup h = some H ∧ H.ppid = launcherPid ∧
    H.origin = some (.trial k np r (.interuptForkHackbench start t)) ∧ H.forkedAt = n

/-- In trial `k`, hackbench `h` was forked before gzip `t` exited, and gzip was reaped before the
clock was read as `finish`, without a sleep of the launcher after its exit. -/
structure Interrupted (s : Procs) (sleeps : List Nat) (k : Nat) (h t : Int) (start finish : Nat) :
    Prop where
  forked : GzipForked s k t start
  caught : ∃ n T img st te tr, HackbenchForked s k h t start n ∧ s.procs.lookup t = some T ∧
    T.life = .reaped img st te tr ∧ n < te ∧ tr < finish ∧ ∀ m ∈ sleeps, m < te ∨ tr < m
  past : finish ≤ s.clock

/-- The time that a `[TEST_PROG_LOG] Time` line gives. -/
def Out.time? : Out → Option Nat
  | .file time | .cout time => some time
  | _ => none

/-- The line was written by the launcher, and gives the time of an interrupted trial, the one it was
in. -/
def InterruptedLine (s : Procs) (sleeps : List Nat) (line : Printed Point Out) (time : Nat) :
    Prop :=
  ∃ k np r h t start finish, line.pid = launcherPid ∧
    (line.point = .trial k np r (.compare h start t t finish) ∨
      line.point = .trial k np r (.coutTime h time)) ∧
    time = finish - start ∧ Interrupted s sleeps k h t start finish

/-- Every recorded trial was interrupted. -/
def AllInterrupted (s : Procs) (sleeps : List Nat) : Prop :=
  ∀ line ∈ s.printed, ∀ time ∈ line.out.time?, InterruptedLine s sleeps line time

/-- The value of `test_proc_pid` where `hackbench_interupt.cpp` forks hackbench. -/
def Point.interuptTestProc? : Point → Option Int
  | .trial _ _ _ (.interuptForkHackbench _ t) => some t
  | _ => none

/-- Process `q` has not exited. -/
def Running (s : Procs) (q : Int) : Prop := ∃ Q ∈ s.procs.lookup q, Q.life.isRunning = true

instance (s : Procs) (q : Int) : Decidable (Running s q) :=
  inferInstanceAs (Decidable (∃ Q ∈ _, _))

/-- Where the trial has a gzip, its hackbench is forked while gzip is running, and that fork
succeeds. Where gzip's fork failed, that fork succeeds or there is another child to wait for. -/
def ForkedInTime (s : Procs) (e : Event) : Prop :=
  ∀ t ∈ (s.point? launcherPid).bind Point.interuptTestProc?, ∀ ret ∈ e.returns? launcherPid,
    (t ≠ -1 → Running s t ∧ ret ≠ -1) ∧ (t = -1 → ret = -1 → ¬ s.NoChild launcherPid)

instance (s : Procs) (e : Event) : Decidable (ForkedInTime s e) :=
  inferInstanceAs (Decidable (∀ t ∈ _, ∀ ret ∈ _, _ ∧ _))

section
variable {args : Args} {s s' : Procs} {sleeps sleeps' : List Nat} {k : Nat} {h t : Int}
  {start finish n : Nat} {e : Event} {l l' : Point}

/-! ## Sleeps -/

/-- An event that is no call of the launcher ends no sleep of it. -/
theorem sleeps_of_other (he : ∀ ret, e ≠ .call launcherPid ret) :
    sleeps ++ (sleepEnd? s e).toList = sleeps := by
  have hnone : sleepEnd? s e = none := if_neg fun hs => by
    obtain ⟨ret, hret⟩ := Option.isSome_iff_exists.1 hs.2
    exact he ret (Event.returns?_eq_some.1 hret)
  rw [hnone, Option.toList_none, List.append_nil]

/-- No sleep ends where the launcher does not sleep. -/
theorem sleeps_of_point (hl : LauncherAt s l) (hsl : l.sleeps = false) :
    sleeps ++ (sleepEnd? s e).toList = sleeps := by
  have hnone : sleepEnd? s e = none := if_neg fun hs => by
    have hany := hs.1
    rw [point?_eq_some.2 hl, Option.any_some, hsl] at hany
    cases hany
  rw [hnone, Option.toList_none, List.append_nil]

/-- A sleep ends now. -/
theorem sleepEnd?_eq (hn : n ∈ (sleepEnd? s e).toList) : n = s.clock := by
  simp only [sleepEnd?] at hn
  split at hn
  · exact List.mem_singleton.1 hn
  · cases hn

/-! ## What a step keeps -/

/-- A run keeps where and when a process was forked. -/
theorem HackbenchForked.of_reach {C : Procs → Event → Prop}
    (hr : Reach (Sys.step (Program.interupt.main args)) C s s')
    (hh : HackbenchForked s k h t start n) : HackbenchForked s' k h t start n := by
  obtain ⟨H, np, r, h1, h2, h3, h4⟩ := hh
  obtain ⟨H', h1', hb⟩ := reach_before hr h1
  exact ⟨H', np, r, h1', hb.ppid.trans h2, hb.origin.trans h3, hb.forkedAt.trans h4⟩

theorem GzipForked.step (hs : s.step (Program.interupt.main args) e = some s')
    (ht : GzipForked s k t start) : GzipForked s' k t start := by
  obtain ⟨T, np, r, h1, h2, h3, h4⟩ := ht
  obtain ⟨T', h1', hb⟩ := step_before hs h1
  exact ⟨T', np, r, h1', hb.ppid.trans h2, hb.origin.trans h3, hb.forkedAt ▸ h4⟩

theorem HackbenchForked.step (hs : s.step (Program.interupt.main args) e = some s')
    (hh : HackbenchForked s k h t start n) : HackbenchForked s' k h t start n :=
  hh.of_reach (C := Free) (.tail .refl trivial hs)

/-- The sleeps that are still to come end behind the reading `finish`. -/
theorem Interrupted.step (hs : s.step (Program.interupt.main args) e = some s')
    (hi : Interrupted s sleeps k h t start finish) :
    Interrupted s' (sleeps ++ (sleepEnd? s e).toList) k h t start finish := by
  obtain ⟨n, T, img, st, te, tr, hh, hT, hl, hn, htr, hsl⟩ := hi.caught
  obtain ⟨T', hT', hb⟩ := step_before hs hT
  obtain rfl : T' = T := hb.reaped (by rw [hl]; rfl)
  have hpast := hi.past
  refine ⟨hi.forked.step hs, ⟨n, T', img, st, te, tr, hh.step hs, hT', hl, hn, htr, ?_⟩, ?_⟩
  · intro m hm
    rcases List.mem_append.1 hm with hm | hm
    · exact hsl m hm
    · have hm := sleepEnd?_eq hm
      omega
  · exact hpast.trans (step_clock hs).le

/-- An interrupted trial whose end is read later is interrupted. -/
theorem Interrupted.mono {finish' : Nat} (hi : Interrupted s sleeps k h t start finish)
    (hle : finish ≤ finish') (hpast : finish' ≤ s.clock) :
    Interrupted s sleeps k h t start finish' := by
  obtain ⟨n, T, img, st, te, tr, hh, hT, hl, hn, htr, hsl⟩ := hi.caught
  exact ⟨hi.forked, ⟨n, T, img, st, te, tr, hh, hT, hl, hn, htr.trans_le hle, hsl⟩, hpast⟩

theorem InterruptedLine.step {line : Printed Point Out} {time : Nat}
    (hs : s.step (Program.interupt.main args) e = some s')
    (hi : InterruptedLine s sleeps line time) :
    InterruptedLine s' (sleeps ++ (sleepEnd? s e).toList) line time := by
  obtain ⟨k, np, r, h, t, start, finish, h1, h2, h3, hi⟩ := hi
  exact ⟨k, np, r, h, t, start, finish, h1, h2, h3, hi.step hs⟩

/-! ## From the second fork to the wait -/

/-- Hackbench `h` was forked when gzip `t` had not exited, and the launcher has not slept since. -/
structure Caught (s : Procs) (sleeps : List Nat) (k : Nat) (h t : Int) (start : Nat) : Prop where
  forked : GzipForked s k t start
  hackbench : ∃ n T, HackbenchForked s k h t start n ∧ s.procs.lookup t = some T ∧
    (∀ te ∈ T.life.exitedAt?, n < te) ∧ n < s.clock ∧ ∀ m ∈ sleeps, m < n

theorem Caught.step (hs : s.step (Program.interupt.main args) e = some s')
    (hc : Caught s sleeps k h t start) : Caught s' sleeps k h t start := by
  obtain ⟨n, T, hh, hT, hte, hn, hsl⟩ := hc.hackbench
  obtain ⟨T', hT', -⟩ := step_before hs hT
  refine ⟨hc.forked.step hs, n, T', hh.step hs, hT', fun te hte' => ?_, ?_, hsl⟩
  · rcases step_exitedAt hs hT hT' hte' with hold | ⟨-, rfl⟩
    · exact hte te hold
    · exact hn
  · exact hn.trans (step_clock hs)

/-- A fork while gzip is running comes before its exit. -/
theorem Caught.forked_now {np r ret : Int}
    (hs : s.step (Program.interupt.main args) (.call launcherPid ret) = some s')
    (hl' : LauncherAt s' l') (hf : GzipForked s k t start) (hrun : Running s t)
    (hc : s'.procs.lookup ret = some ⟨launcherPid,
      some (.trial k np r (.interuptForkHackbench start t)), s.clock,
      .code (.trial k np r (.interuptHackbenchForked start t 0))⟩)
    (hsl : ∀ m ∈ sleeps, m < s.clock) : Caught s' sleeps k ret t start := by
  obtain ⟨T, hT, hrun⟩ := hrun
  obtain ⟨T', hT', -⟩ := step_before hs hT
  refine ⟨hf.step hs, s.clock, T', ⟨_, np, r, hc, rfl, rfl, rfl⟩, hT', fun te hte => ?_, ?_, hsl⟩
  · by_cases ht : t = launcherPid
    · subst ht
      obtain ⟨P, hP, hl'⟩ := hl'
      cases hP.symm.trans hT'
      rw [hl'] at hte
      cases hte
    · have hold := step_exitedAt_of_ne hs (Ne.symm ht) hT hT' hte
      rw [exitedAt?_of_running hrun] at hold
      cases hold
  · exact step_clock hs

/-- A wait that reaps a gzip that was caught ends an interrupted trial. -/
theorem Caught.reaped {ret : Int} {o : Option Point} {m te : Nat} {img : Option Image} {st : Status}
    (hs : s.step (Program.interupt.main args) (.call launcherPid ret) = some s')
    (hcaught : Caught s sleeps k h ret start)
    (hc : s.procs.lookup ret = some ⟨launcherPid, o, m, .zombie img st te⟩)
    (hc' : s'.procs.lookup ret = some ⟨launcherPid, o, m, .reaped img st te s.clock⟩) :
    Interrupted s' sleeps k h ret start s'.clock := by
  obtain ⟨n, T, hh, hT, hte, -, hsl⟩ := hcaught.hackbench
  cases hT.symm.trans hc
  have hn : n < te := hte te rfl
  exact ⟨hcaught.forked.step hs, ⟨n, _, img, st, te, s.clock, hh.step hs, hc', rfl, hn,
    step_clock hs, fun m hm => .inl ((hsl m hm).trans hn)⟩, le_rfl⟩

/-! ## The invariant -/

/-- What is known of the trial's gzip and hackbench at a control point of `run_trial`. -/
def TrialWatched (s : Procs) (sleeps : List Nat) (k : Nat) : TrialPoint → Prop
  | .interuptForkTestProc start => start < s.clock
  | .interuptTestProcForked start t | .interuptForkHackbench start t =>
    t = -1 ∨ GzipForked s k t start
  | .interuptHackbenchForked start t h | .wait h start t =>
    (t ≠ -1 → Caught s sleeps k h t start) ∧ (t = -1 → s.unreaped launcherPid ≠ ∅)
  | .waited h start t w => w = t → Interrupted s sleeps k h t start s.clock
  | .tidy h start t w finish | .compare h start t w finish =>
    w = t → Interrupted s sleeps k h t start finish
  | .coutTime h time => ∃ t start finish, time = finish - start ∧
    Interrupted s sleeps k h t start finish
  | _ => True

/-- What is known of the trial's gzip and hackbench at a control point. -/
def WatchedAt (s : Procs) (sleeps : List Nat) : Point → Prop
  | .trial k _ _ p => TrialWatched s sleeps k p
  | _ => True

/-- The sleeps are over, and what is known where the launcher is holds. -/
structure Watched (s : Procs) (sleeps : List Nat) : Prop where
  past : ∀ m ∈ sleeps, m < s.clock
  at_ : ∀ l, LauncherAt s l → WatchedAt s sleeps l

/-- An event that is no call of the launcher keeps what is known. -/
theorem WatchedAt.step (hs : s.step (Program.interupt.main args) e = some s')
    (he : ∀ ret, e ≠ .call launcherPid ret) (hu : s'.unreaped launcherPid = s.unreaped launcherPid)
    (hw : WatchedAt s sleeps l) : WatchedAt s' sleeps l := by
  have hclock : s.clock ≤ s'.clock := (step_clock hs).le
  have keep : ∀ {k h t start finish}, Interrupted s sleeps k h t start finish →
      Interrupted s' sleeps k h t start finish := fun hi => by
    have hi := hi.step hs
    rwa [sleeps_of_other he] at hi
  cases l with
  | begin | pairs | reps | done => trivial
  | trial k np r p =>
    cases p with
    | interuptForkTestProc => exact Nat.lt_of_lt_of_le hw hclock
    | interuptTestProcForked | interuptForkHackbench => exact Or.imp_right (GzipForked.step hs) hw
    | interuptHackbenchForked | wait => exact ⟨fun ht => (hw.1 ht).step hs, fun ht => hu ▸ hw.2 ht⟩
    | waited => exact fun heq => (keep (hw heq)).mono hclock le_rfl
    | tidy | compare => exact fun heq => keep (hw heq)
    | coutTime =>
      obtain ⟨t, start, finish, htime, hi⟩ := hw
      exact ⟨t, start, finish, htime, keep hi⟩
    | _ => trivial

/-- A step of the launcher that neither forks nor waits keeps what is known. -/
theorem WatchedAt.flow (hs : s.step (Program.interupt.main args) e = some s')
    (hf : Flow s.clock l l') (hl : LauncherAt s l) (hk : KeepsToPath .interupt s)
    (hu : s'.unreaped launcherPid = s.unreaped launcherPid) (hw : WatchedAt s sleeps l) :
    WatchedAt s' (sleeps ++ (sleepEnd? s e).toList) l' := by
  have hclock : s.clock < s'.clock := step_clock hs
  cases hf with
  | begin | reps | done | pairs | rep => trivial
  | trial _ _ _ hf => rcases hf with rfl | rfl <;> trivial
  | run k np r hp =>
    cases hp with
    | interuptStart => exact hclock
    | interuptTestProc => exact Or.imp_right (GzipForked.step hs) hw
    | interuptHackbench =>
      rw [sleeps_of_point hl rfl]
      exact ⟨fun ht => (hw.1 ht).step hs, fun ht => hu ▸ hw.2 ht⟩
    | finish | tidy => exact fun heq => (hw heq).step hs
    | record h start t finish => exact ⟨t, start, finish, rfl, (hw rfl).step hs⟩
    | testProc => exact (hk _ _ _ _ hl).elim
    | testChild _ hp' => rcases hp' with rfl | rfl <;> trivial
    | _ => trivial

/-- A fork keeps what is known when it comes in time. -/
theorem WatchedAt.forked {k' : Nat} {role : Role} {f : Int → Point} {ret : Int}
    (hs : s.step (Program.interupt.main args) (.call launcherPid ret) = some s')
    (hf : ForksAt l k' role f) (hl : LauncherAt s l) (hl' : LauncherAt s' (f ret))
    (hc : s'.procs.lookup ret = some ⟨launcherPid, some l, s.clock, .code (f 0)⟩)
    (hu : s'.unreaped launcherPid = insert ret (s.unreaped launcherPid))
    (hsl : ∀ m ∈ sleeps, m < s.clock) (hC : ForkedInTime s (.call launcherPid ret))
    (hw : WatchedAt s sleeps l) : WatchedAt s' sleeps (f ret) := by
  cases hf with
  | hackbench | testProg => trivial
  | interuptTestProg k np r => exact .inr ⟨_, np, r, hc, rfl, rfl, hw⟩
  | interuptHackbench k np r start t =>
    have hin := hC t (by rw [point?_eq_some.2 hl]; rfl) ret rfl
    refine ⟨fun ht => ?_, fun _ hnone => ?_⟩
    · exact .forked_now hs hl' (Or.resolve_left hw ht) (hin.1 ht).1 hc hsl
    · rw [hu] at hnone
      exact (Set.insert_nonempty ret _).ne_empty hnone

/-- So does a failed fork. -/
theorem WatchedAt.forkFailed {k' : Nat} {role : Role} {f : Int → Point}
    (hf : ForksAt l k' role f) (hl : LauncherAt s l)
    (hu : s'.unreaped launcherPid = s.unreaped launcherPid)
    (hC : ForkedInTime s (.call launcherPid (-1))) : WatchedAt s' sleeps (f (-1)) := by
  cases hf with
  | hackbench | testProg => trivial
  | interuptTestProg => exact .inl rfl
  | interuptHackbench k np r start t =>
    have hin := hC t (by rw [point?_eq_some.2 hl]; rfl) (-1) rfl
    refine ⟨fun ht => absurd rfl (hin.1 ht).2, fun ht hnone => ?_⟩
    exact hin.2 ht rfl (noChild_of_unreaped (hu.symm.trans hnone))

/-- A wait that finds no child does not return the value of `test_proc_pid`. -/
theorem WatchedAt.noChild {f : Int → Point} (hwait : WaitsAt l f)
    (hn : s.unreaped launcherPid = ∅) (hw : WatchedAt s sleeps l) :
    WatchedAt s' sleeps (f (-1)) := by
  cases hwait with
  | first => exact fun ht => absurd hn (hw.2 ht.symm)
  | second => trivial

/-- A wait that reaps the trial's gzip ends an interrupted trial. -/
theorem WatchedAt.reaped {f : Int → Point} {ret : Int} {o : Option Point} {m te : Nat}
    {img : Option Image} {st : Status}
    (hs : s.step (Program.interupt.main args) (.call launcherPid ret) = some s')
    (hwait : WaitsAt l f) (hr : ret ≠ -1)
    (hc : s.procs.lookup ret = some ⟨launcherPid, o, m, .zombie img st te⟩)
    (hc' : s'.procs.lookup ret = some ⟨launcherPid, o, m, .reaped img st te s.clock⟩)
    (hw : WatchedAt s sleeps l) : WatchedAt s' sleeps (f ret) := by
  cases hwait with
  | second => trivial
  | first k np r h start t =>
    rintro rfl
    exact (hw.1 hr).reaped hs hc hc'

/-- Every step keeps what is known when it meets `ForkedInTime`. -/
theorem watched_step (hi : Inv s) (hk : KeepsToPath .interupt s) (hw : Watched s sleeps)
    (hC : ForkedInTime s e) (hs : s.step (Program.interupt.main args) e = some s') :
    Watched s' (sleeps ++ (sleepEnd? s e).toList) := by
  refine ⟨fun m hm => ?_, fun l' hl' => ?_⟩
  · rcases List.mem_append.1 hm with hm | hm
    · exact (hw.past m hm).trans (step_clock hs)
    · exact sleepEnd?_eq hm ▸ step_clock hs
  · have hl'' := hl'
    cases move_of_step hs hi.present hl' with
    | other he hl hu =>
      rw [sleeps_of_other he]
      exact (hw.at_ l' hl).step hs he hu
    | goes _ hl hg hu => exact (hw.at_ _ hl).flow hs hg hl hk hu
    | forkFailed he hl hf hl' hu =>
      subst hl' he
      rw [sleeps_of_point hl (by cases hf <;> rfl)]
      exact .forkFailed hf hl hu hC
    | forked he hl hf hl' _ _ hc hu =>
      subst hl' he
      rw [sleeps_of_point hl (by cases hf <;> rfl)]
      exact (hw.at_ _ hl).forked hs hf hl hl'' hc hu hw.past hC
    | noChild _ hl hwait hl' hn _ =>
      subst hl'
      rw [sleeps_of_point hl (by cases hwait <;> rfl)]
      exact (hw.at_ _ hl).noChild hwait hn
    | reaped he hl hwait hl' hr hc hc' _ =>
      subst hl' he
      rw [sleeps_of_point hl (by cases hwait <;> rfl)]
      exact (hw.at_ _ hl).reaped hs hwait hr hc hc'

/-! ## The lines -/

/-- Where a trial writes its time, and the time. -/
inductive TimeAt : TrialPoint → Nat → Prop
  | file (h : Int) (start : Nat) (t : Int) (finish : Nat) :
      TimeAt (.compare h start t t finish) (finish - start)
  | cout (h : Int) (time : Nat) : TimeAt (.coutTime h time) time

theorem trialTail_time {testProg : Image} {useOut : Bool} {p p' : TrialPoint} {out : Out}
    {time : Nat} (hc : trialTail testProg useOut p = .print out p') (ht : time ∈ out.time?) :
    TimeAt p time := by
  cases p with
  | compare h start t w finish =>
    simp only [trialTail] at hc
    split at hc
    · cases hc; cases ht
    · next hw =>
      simp only [ne_eq, not_not] at hw
      subst hw
      split at hc
      · cases hc; cases ht; exact .file h start w finish
      · cases hc
  | hackbenchWaited h w =>
    simp only [trialTail] at hc
    split at hc <;> cases hc
    cases ht
  | coutTime h => cases hc; cases ht; exact .cout h time
  | _ => cases hc

theorem interuptRunTrial_time {pairs : Int} {p p' : TrialPoint} {out : Out} {time : Nat}
    (hc : interuptRunTrial args pairs p = .print out p') (ht : time ∈ out.time?) :
    TimeAt p time := by
  cases p with
  | interuptTestProcForked start t =>
    simp only [interuptRunTrial, pinTestProc] at hc
    repeat' split at hc
    all_goals cases hc
  | interuptHackbenchForked start t h =>
    simp only [interuptRunTrial] at hc
    split at hc <;> cases hc
  | interuptPrepare | interuptStart | interuptForkTestProc | interuptForkHackbench | forkHackbench
  | hackbenchForked | warmUp | prepare | runProg | forkTestProc | testProcForked => cases hc
  | _ => simp only [interuptRunTrial] at hc; exact trialTail_time hc ht

/-- A time is written in a trial, at these points. -/
theorem interuptMain_time {out : Out} {time : Nat} (hc : interuptMain args l = .print out l')
    (ht : time ∈ out.time?) : ∃ k np r p, l = .trial k np r p ∧ TimeAt p time := by
  cases l with
  | begin => cases (main_begin .interupt args).symm.trans hc; cases ht
  | pairs k np => cases (main_pairs .interupt args k np).symm.trans hc
  | reps k np r =>
    rcases lt_or_ge r args.reps with hlt | hle
    · cases (if_pos hlt).symm.trans hc
      cases ht
    · simp only [interuptMain, sweep, if_neg (Int.not_lt.2 hle)] at hc
      split at hc <;> cases hc
  | trial k np r p =>
    refine ⟨k, np, r, p, rfl, ?_⟩
    by_cases hp : p = .returned
    · subst hp
      simp only [interuptMain, sweep] at hc
      split at hc <;> cases hc
    · rw [interuptMain, sweep.eq_5 _ _ _ _ _ _ _ hp] at hc
      cases hrun : interuptRunTrial args np p with
      | print out' p' =>
        rw [hrun] at hc
        cases hc
        exact interuptRunTrial_time hrun ht
      | _ => rw [hrun] at hc; cases hc
  | done => cases hc

/-- A line with a time was there before, or the launcher writes it. -/
theorem step_time {line : Printed Point Out} {time : Nat} (hch : InChildren s)
    (hs : s.step (Program.interupt.main args) e = some s') (hline : line ∈ s'.printed)
    (ht : time ∈ line.out.time?) : line ∈ s.printed ∨ line.pid = launcherPid ∧
      ∃ k np r p, LauncherAt s (.trial k np r p) ∧ line.point = .trial k np r p ∧
        TimeAt p time := by
  rcases step_printed hs with hpr | ⟨q, ret, P, l, out, l', rfl, hP, hl, hc, hpr, -⟩
  · exact .inl (hpr ▸ hline)
  · rw [hpr] at hline
    rcases List.mem_append.1 hline with hline | hline
    · exact .inl hline
    · obtain rfl := List.mem_singleton.1 hline
      obtain ⟨k, np, r, p, rfl, hat⟩ := interuptMain_time hc ht
      have hq : q = launcherPid := by
        by_contra hne
        cases hch q P _ hne hP hl with
        | trial _ _ _ hp => cases hat <;> cases hp
      subst hq
      exact .inr ⟨rfl, k, np, r, p, ⟨P, hP, hl⟩, rfl, hat⟩

/-- A time that is written is that of an interrupted trial. -/
theorem TrialWatched.time {p : TrialPoint} {time : Nat} (hw : TrialWatched s sleeps k p)
    (hat : TimeAt p time) : ∃ h t start finish,
      (p = .compare h start t t finish ∨ p = .coutTime h time) ∧ time = finish - start ∧
      Interrupted s sleeps k h t start finish := by
  cases hat with
  | file h start t finish => exact ⟨h, t, start, finish, .inl rfl, rfl, hw rfl⟩
  | cout h time =>
    obtain ⟨t, start, finish, htime, hi⟩ := hw
    exact ⟨h, t, start, finish, .inr rfl, htime, hi⟩

theorem allInterrupted_step (hch : InChildren s) (hw : Watched s sleeps)
    (ha : AllInterrupted s sleeps) (hs : s.step (Program.interupt.main args) e = some s') :
    AllInterrupted s' (sleeps ++ (sleepEnd? s e).toList) := by
  intro line hline time ht
  rcases step_time hch hs hline ht with hline | ⟨hpid, k, np, r, p, hl, hpt, hat⟩
  · exact (ha line hline time ht).step hs
  · have hwp : TrialWatched s sleeps k p := hw.at_ _ hl
    obtain ⟨h, t, start, finish, hp, htime, hi⟩ := hwp.time hat
    refine ⟨k, np, r, h, t, start, finish, hpid, ?_, htime, hi.step hs⟩
    rw [hpt]
    rcases hp with rfl | rfl
    · exact .inl rfl
    · exact .inr rfl

end

/-! ## Interrupted runs -/

section
variable {args : Args} {s s' : Procs} {e : Event}

theorem watched_start : Watched start [] := by
  refine ⟨fun _ h => absurd h List.not_mem_nil, ?_⟩
  rintro l ⟨P, hP, hl⟩
  cases hP
  cases hl
  trivial

/-- In a run whose forks of hackbench come in time, every recorded trial was interrupted. -/
theorem allInterrupted_of_forkedInTime (es : List Event)
    (hex : exec (Sys.step (Program.interupt.main args)) ForkedInTime start es = some s) :
    AllInterrupted s
      (observed (Sys.step (Program.interupt.main args)) sleepEnd? start es) := by
  have hinv := observed_invariant sleepEnd?
    (I := fun s sleeps => (Always s ∧ KeepsToPath .interupt s) ∧ Watched s sleeps ∧
      AllInterrupted s sleeps)
    ⟨⟨always_start, keepsToPath_start .interupt⟩, watched_start,
      fun _ h => absurd h List.not_mem_nil⟩
    (fun s e s' sleeps ⟨⟨ha, hk⟩, hw, hl⟩ hC hs =>
      ⟨⟨always_step ha hs, keepsToPath_step ha.inv hk hs⟩, watched_step ha.inv hk hw hC hs,
        allInterrupted_step ha.inChildren hw hl hs⟩) es hex
  exact hinv.2.2

/-! ## The children -/

/-- Where a child of `hackbench_interupt.cpp` can be. -/
inductive InteruptChild : Point → Prop
  | testProg (k : Nat) (np r : Int) (start : Nat) :
      InteruptChild (.trial k np r (.interuptTestProcForked start 0))
  | hackbench (k : Nat) (np r : Int) (start : Nat) (t : Int) :
      InteruptChild (.trial k np r (.interuptHackbenchForked start t 0))
  | execTestProg (k : Nat) (np r : Int) : InteruptChild (.trial k np r .execTestProg)
  | exitFailed (k : Nat) (np r : Int) : InteruptChild (.trial k np r .exitFailed)

theorem InteruptChild.flow {n : Nat} {l l' : Point} (h : InteruptChild l) (hf : Flow n l l') :
    InteruptChild l' := by
  cases hf with
  | run k np r hf =>
    cases hf with
    | interuptTestProc _ _ h0 | interuptHackbench _ _ _ h0 => cases h; exact absurd rfl h0
    | interuptHackbenchChild | execFailed => exact .exitFailed k np r
    | testChild _ hp' =>
      rcases hp' with rfl | rfl
      · exact .execTestProg k np r
      · exact .exitFailed k np r
    | _ => cases h
  | _ => cases h

/-- A fork on the path leaves the child at one of these points. -/
theorem InteruptChild.of_fork {l : Point} {k : Nat} {role : Role} {f : Int → Point}
    (hf : ForksAt l k role f) (hk : ∀ k np r p, l = .trial k np r p → OnPath .interupt p) :
    InteruptChild (f 0) := by
  cases hf with
  | hackbench | testProg => exact (hk _ _ _ _ rfl).elim
  | interuptTestProg k np r start => exact .testProg k np r start
  | interuptHackbench k np r start t => exact .hackbench k np r start t

/-- The processes other than the launcher are at these points. -/
def InteruptChildren (s : Procs) : Prop :=
  ∀ q Q l, q ≠ launcherPid → s.procs.lookup q = some Q → Q.life = .code l → InteruptChild l

theorem interuptChildren_step (hch : InChildren s) (hk : KeepsToPath .interupt s)
    (h : InteruptChildren s) (hs : s.step (Program.interupt.main args) e = some s') :
    InteruptChildren s' := by
  intro q Q' l' hq hQ' hl'
  cases step_arrives hs hQ' hl' with
  | same _ hQ => exact h q Q' l' hq hQ hl'
  | goes _ hQ hl hg => exact (h q _ _ hq hQ hl).flow (main_flow hg)
  | forkFailed _ hQ hl hc | forked _ hQ hl hc =>
    obtain ⟨k, role, hf⟩ := main_fork hc
    exact ((hch q _ _ hq hQ hl).not_fork hf).elim
  | noChild _ hQ hl hc | reaped _ hQ hl hc =>
    exact ((hch q _ _ hq hQ hl).not_wait (main_wait hc)).elim
  | @born p P l _ _ hP hl hc hl₀ =>
    obtain ⟨k, role, hf⟩ := main_fork hc
    by_cases hp : p = launcherPid
    · subst hp hl₀
      refine .of_fork hf fun k np r p heq => ?_
      subst heq
      exact hk k np r p ⟨P, hP, hl⟩
    · exact ((hch p P l hp hP hl).not_fork hf).elim

/-- In every run, what is known of the launcher and its children holds. -/
theorem reach_interupt {C : Procs → Event → Prop}
    (hr : Reach (Sys.step (Program.interupt.main args)) C start s) :
    Always s ∧ KeepsToPath .interupt s ∧ InteruptChildren s := by
  refine hr.invariant (I := fun s => Always s ∧ KeepsToPath .interupt s ∧ InteruptChildren s)
    ⟨always_start, keepsToPath_start .interupt, fun q Q l hq hQ => ?_⟩
    fun _ _ _ ⟨ha, hk, hc⟩ _ hs => ⟨always_step ha hs, keepsToPath_step ha.inv hk hs,
      interuptChildren_step ha.inChildren hk hc hs⟩
  exact absurd (lookup_init hQ).1 hq

/-- A child can come to its end by itself. -/
theorem InteruptChild.ends (args : Args) {l : Point} (h : InteruptChild l) :
    Ends (Program.interupt.main args) l := by
  have hexec (k : Nat) (np r : Int) : Program.interupt.main args (.trial k np r .execTestProg) =
      .execl gzipProg (.trial k np r .exitFailed) := rfl
  cases h with
  | testProg k np r start =>
    suffices hg : ∀ n, Goes n 0
        (Program.interupt.main args (.trial k np r (.interuptTestProcForked start 0)))
        (.trial k np r .execTestProg) from .goes hg (.execl (hexec k np r))
    intro n
    by_cases hpin : args.coreToPinTo = -1
    · simp only [Program.main, interuptMain, sweep, interuptRunTrial, pinTestProc, if_true, hpin,
        ne_eq, not_true_eq_false, if_false, Call.map]
      exact .skip _
    · have hc : Program.interupt.main args (.trial k np r (.interuptTestProcForked start 0)) =
          .attempt fun ok => .trial k np r (if ok then .execTestProg else .exitFailed) := by
        simp only [Program.main, interuptMain, sweep, interuptRunTrial, pinTestProc, if_true, hpin,
          ne_eq, not_false_eq_true, Call.map]
      rw [hc]
      exact .attempt _
  | hackbench k np r start t =>
    have hc : Program.interupt.main args (.trial k np r (.interuptHackbenchForked start t 0)) =
        .execl (hackbenchImage args np) (.trial k np r .exitFailed) := rfl
    exact .execl hc
  | execTestProg k np r => exact .execl (hexec k np r)
  | exitFailed => exact .exit rfl

/-! ## Forks that come late -/

/-- Trial `k` has written its time, with the value `h` in the variable `hackbench`. -/
def TimeWritten (s : Procs) (k : Nat) (h : Int) : Prop :=
  ∃ np r time, ⟨launcherPid, .trial k np r (.coutTime h time), .cout time⟩ ∈ s.printed

/-- A recorded trial that was interrupted has a hackbench, which knows its gzip. -/
theorem TimeWritten.caught {sleeps : List Nat} {k : Nat} {h : Int} (hrec : TimeWritten s k h)
    (ha : AllInterrupted s sleeps) : ∃ t start n T te, HackbenchForked s k h t start n ∧
      s.procs.lookup t = some T ∧ T.life.exitedAt? = some te ∧ n < te := by
  obtain ⟨np, r, time, hline⟩ := hrec
  obtain ⟨_, _, _, _, t, start, finish, -, hpt, -, hi⟩ := ha _ hline time rfl
  rcases hpt with hpt | hpt
  · cases hpt
  · cases hpt
    obtain ⟨n, T, img, st, te, tr, hh, hT, hl, hn, -, -⟩ := hi.caught
    exact ⟨t, start, n, T, te, hh, hT, by rw [hl]; rfl, hn⟩

/-- A trial that records with a hackbench whose fork failed was not interrupted. -/
theorem not_interrupted_of_failed {sleeps : List Nat} {k : Nat} (hrec : TimeWritten s k (-1))
    (hpos : Positive s) : ¬ AllInterrupted s sleeps := by
  intro ha
  obtain ⟨t, start, n, T, te, ⟨H, np, r, hH, -⟩, -⟩ := hrec.caught ha
  exact absurd (hpos _ _ hH) (by decide)

/-- A trial that records with a gzip that exited before the fork of hackbench was not
interrupted. -/
theorem not_interrupted_of_late {sleeps : List Nat} {k start n te : Nat} {h t : Int}
    (hrec : TimeWritten s k h) (hh : HackbenchForked s k h t start n)
    (ht : ∃ T, s.procs.lookup t = some T ∧ T.life.exitedAt? = some te) (hlt : te < n) :
    ¬ AllInterrupted s sleeps := by
  intro ha
  obtain ⟨T, hT, hte⟩ := ht
  obtain ⟨t', start', n', T', te', hh', hT', hte', hlt'⟩ := hrec.caught ha
  obtain ⟨H, np, r, hH, -, ho, hn⟩ := hh
  obtain ⟨H', np', r', hH', -, ho', hn'⟩ := hh'
  cases hH.symm.trans hH'
  cases ho.symm.trans ho'
  cases hT.symm.trans hT'
  cases hte.symm.trans hte'
  omega

/-- `run_trial` records after a first wait that returned the value of `test_proc_pid`. -/
theorem timeWritten_of_waited (args : Args) {k start : Nat} {np r h t : Int}
    (hl : LauncherAt s (.trial k np r (.waited h start t t))) :
    ∃ s', Reach (Sys.step (Program.interupt.main args)) Free s s' ∧ TimeWritten s' k h := by
  obtain ⟨s₁, hr, P, hP, hl₁⟩ := reach_coutTime .interupt args hl
  have hprint : Program.interupt.main args (.trial k np r (.coutTime h (s.clock - start))) =
      .print (.cout (s.clock - start)) (.trial k np r (.kill h)) := rfl
  obtain ⟨s₂, hs₂, -, hpr⟩ := step_of_print 0 hP hl₁ hprint
  refine ⟨s₂, hr.tail trivial hs₂, np, r, s.clock - start, ?_⟩
  rw [hpr]
  exact List.mem_append_right _ (List.mem_singleton.2 rfl)

/-- A fork of hackbench fails or adds a process, and leaves the others as they are. -/
theorem step_forkHackbench {k start : Nat} {np r t ret : Int}
    (hl : LauncherAt s (.trial k np r (.interuptForkHackbench start t)))
    (hs : s.step (Program.interupt.main args) (.call launcherPid ret) = some s') :
    LauncherAt s' (.trial k np r (.interuptHackbenchForked start t ret)) ∧
    (ret = -1 ∧ s'.unreaped launcherPid = s.unreaped launcherPid ∨
      0 < ret ∧ s.procs.lookup ret = none ∧ HackbenchForked s' k ret t start s.clock) ∧
    ∀ q ≠ launcherPid, q ≠ ret → s'.procs.lookup q = s.procs.lookup q := by
  obtain ⟨P, l, s₁, hP, hl₁, hc, rfl⟩ := step_call hs
  obtain ⟨P', hP', hl'⟩ := hl
  cases hP.symm.trans hP'
  cases hl₁.symm.trans hl'
  rcases call_fork hc with ⟨rfl, rfl⟩ | ⟨h0, hn, rfl⟩
  · exact ⟨⟨_, lookup_live_self, rfl⟩,
      .inl ⟨rfl, unreaped_live hP (by rw [hl₁]; rfl) rfl rfl⟩, fun q hq _ => lookup_live_ne hq⟩
  · have hne : launcherPid ≠ ret := by rintro rfl; cases hn.symm.trans hP
    refine ⟨⟨{ P with life := _ }, ?_, rfl⟩,
      .inr ⟨h0, hn, _, np, r, lookup_put_self, rfl, rfl, rfl⟩, fun q hq hqr => ?_⟩
    · rw [procs_tick, lookup_put_ne hne]
      exact lookup_live_self
    · rw [procs_tick, lookup_put_ne hqr, lookup_live_ne hq]

/-- Behind the second fork, a gzip that has exited can be reaped by the first wait, and the trial
records. -/
theorem timeWritten_of_exited (args : Args) {k start te n : Nat} {np r h t : Int} {o : Option Point}
    {img : Option Image} {st : Status} (h0 : h ≠ 0) (ht : t ≠ -1)
    (hl : LauncherAt s (.trial k np r (.interuptHackbenchForked start t h)))
    (hT : s.procs.lookup t = some ⟨launcherPid, o, n, .zombie img st te⟩) :
    ∃ s', Reach (Sys.step (Program.interupt.main args)) Free s s' ∧ TimeWritten s' k h := by
  obtain ⟨P, hP, hl⟩ := hl
  have hne : t ≠ launcherPid := by rintro rfl; cases hP.symm.trans hT; cases hl
  have hskip : Goes s.clock 0
      (Program.interupt.main args (.trial k np r (.interuptHackbenchForked start t h)))
      (.trial k np r (.wait h start t)) := by
    simp only [Program.main, interuptMain, sweep, interuptRunTrial, if_neg h0]
    exact .skip _
  obtain ⟨s₁, hs₁, hprocs⟩ := step_of_goes hP hl hskip
  have hwait : Program.interupt.main args (.trial k np r (.wait h start t)) =
      .wait fun pid => .trial k np r (.waited h start t pid) := rfl
  obtain ⟨s₂, hs₂, hP₂⟩ := step_of_wait (by rw [hprocs]; exact lookup_live_self) rfl hwait ht
    (by rw [hprocs, lookup_live_ne hne]; exact hT)
  obtain ⟨s₃, hr, hrec⟩ := timeWritten_of_waited args ⟨_, hP₂, rfl⟩
  exact ⟨s₃, ((Reach.tail .refl trivial hs₁).tail trivial hs₂).trans hr, hrec⟩

/-- Behind two forks that failed, the first wait can find no child, and the trial records. -/
theorem timeWritten_of_noChild {k start : Nat} {np r : Int}
    (hl : LauncherAt s (.trial k np r (.interuptHackbenchForked start (-1) (-1))))
    (hn : s.unreaped launcherPid = ∅) :
    ∃ s', Reach (Sys.step (Program.interupt.main args)) Free s s' ∧ TimeWritten s' k (-1) := by
  have hskip : Goes s.clock 0
      (Program.interupt.main args (.trial k np r (.interuptHackbenchForked start (-1) (-1))))
      (.trial k np r (.wait (-1) start (-1))) := .skip _
  obtain ⟨s₁, hs₁, ⟨P, hP, hl₁⟩, hu⟩ := launcher_goes hl hskip
  have hwait : Program.interupt.main args (.trial k np r (.wait (-1) start (-1))) =
      .wait fun pid => .trial k np r (.waited (-1) start (-1) pid) := rfl
  obtain ⟨s₂, hs₂, hP₂⟩ := step_of_noChild hP hl₁ hwait (noChild_of_unreaped (hu.trans hn))
  obtain ⟨s₃, hr, hrec⟩ := timeWritten_of_waited args ⟨_, hP₂, rfl⟩
  exact ⟨s₃, ((Reach.tail .refl trivial hs₁).tail trivial hs₂).trans hr, hrec⟩

/-- A fork of hackbench that does not come in time is one of the trial's: of a trial without a gzip,
and without another child; of a trial whose gzip has exited; or a failed one beside a gzip. -/
theorem not_forkedInTime (hC : ¬ ForkedInTime s e) : ∃ k np r start t ret,
    LauncherAt s (.trial k np r (.interuptForkHackbench start t)) ∧ e = .call launcherPid ret ∧
    (t = -1 ∧ ret = -1 ∧ s.NoChild launcherPid ∨ t ≠ -1 ∧ (¬ Running s t ∨ ret = -1)) := by
  simp only [ForkedInTime, not_forall] at hC
  obtain ⟨t, ht, ret, hret, hC⟩ := hC
  obtain ⟨l, hl, hlt⟩ := Option.bind_eq_some_iff.1 ht
  obtain rfl := Event.returns?_eq_some.1 hret
  cases l with
  | begin | pairs | reps | done => cases hlt
  | trial k np r p =>
    cases p with
    | interuptForkHackbench start t' =>
      cases hlt
      refine ⟨k, np, r, start, t, ret, point?_eq_some.1 hl, rfl, ?_⟩
      by_cases hneg : t = -1
      · exact .inl ⟨hneg, by_contra fun h => hC ⟨fun h => absurd hneg h, fun _ hr _ => h hr⟩,
          by_contra fun h => hC ⟨fun h => absurd hneg h, fun _ _ => h⟩⟩
      · refine .inr ⟨hneg, ?_⟩
        by_contra h
        exact hC ⟨fun _ => ⟨by_contra fun hrun => h (.inl hrun), fun hr => h (.inr hr)⟩,
          fun h => absurd h hneg⟩
    | _ => cases hlt

/-- A process that has exited and was not waited for. -/
theorem zombie_of_unreaped {q : Int} (hq : q ∈ s.unreaped launcherPid) (hrun : ¬ Running s q) :
    ∃ o n img st te, s.procs.lookup q = some ⟨launcherPid, o, n, .zombie img st te⟩ := by
  obtain ⟨⟨pp, o, n, x⟩, hQ, rfl, hr⟩ := hq
  cases x with
  | code | image => exact absurd ⟨_, hQ, rfl⟩ hrun
  | zombie img st te => exact ⟨o, n, img, st, te, hQ⟩
  | reaped => cases hr

/-- A child can exit while the launcher stays where it is. -/
theorem exits_of_unreaped {q : Int} {l : Point} (hch : InteruptChildren s)
    (hq : q ∈ s.unreaped launcherPid) (hl : LauncherAt s l) (hne : q ≠ launcherPid) :
    ∃ s' o n img st te, Reach (Sys.step (Program.interupt.main args)) Free s s' ∧
      s'.procs.lookup q = some ⟨launcherPid, o, n, .zombie img st te⟩ ∧ LauncherAt s' l := by
  obtain ⟨P, hP, hl⟩ := hl
  obtain ⟨⟨pp, o, n, x⟩, hQ, rfl, hr⟩ := hq
  cases x with
  | code l' =>
    obtain ⟨s', img, st, te, hr, hQ', ho⟩ :=
      ((hch q _ l' hne hQ rfl).ends args).reach hQ rfl
    exact ⟨s', o, n, img, st, te, hr, hQ', P, (ho _ hne.symm).trans hP, hl⟩
  | image img =>
    have hexit : s.step (Program.interupt.main args) (.exit q (.exited 0)) =
        some ((s.put q ⟨launcherPid, o, n, .zombie (some img) (.exited 0) s.clock⟩).tick []) := by
      simp only [step, hQ]
    exact ⟨_, o, n, some img, .exited 0, s.clock, .tail .refl trivial hexit, lookup_put_self, P,
      (lookup_put_ne hne.symm).trans hP, hl⟩
  | zombie img st te => exact ⟨s, o, n, img, st, te, .refl, hQ, P, hP, hl⟩
  | reaped => cases hr

/-- The launcher is not its own child. -/
theorem launcher_not_child
    (hr : Reach (Sys.step (Program.interupt.main args)) Free start s) :
    launcherPid ∉ s.unreaped launcherPid := by
  rintro ⟨P, hP, hp, -⟩
  obtain ⟨P', hP', hb⟩ := reach_before hr lookup_init_self
  cases hP.symm.trans hP'
  have h0 : (0 : Int) = launcherPid := hb.ppid.symm.trans hp
  exact absurd h0 (by decide)

/-- A trial that can record with a hackbench whose fork failed can record without an
interruption. -/
theorem not_interrupted_of_writes
    (hr : Reach (Sys.step (Program.interupt.main args)) Free start s) {k : Nat}
    (hwrites : ∃ s', Reach (Sys.step (Program.interupt.main args)) Free s s' ∧
      TimeWritten s' k (-1)) :
    ∃ s', Reach (Sys.step (Program.interupt.main args)) Free s s' ∧
      ∀ sleeps, ¬ AllInterrupted s' sleeps := by
  obtain ⟨s', hr', hrec⟩ := hwrites
  exact ⟨s', hr', fun _ => not_interrupted_of_failed hrec (reach_always (hr.trans hr')).positive⟩

/-- A fork of hackbench that does not come in time leads to the time of a trial that was not
interrupted. -/
theorem not_interrupted_of_not_forkedInTime
    (hr : Reach (Sys.step (Program.interupt.main args)) Free start s)
    (hC : ¬ ForkedInTime s e) (hs : s.step (Program.interupt.main args) e = some s') :
    ∃ s'', Reach (Sys.step (Program.interupt.main args)) Free s' s'' ∧
      ∀ sleeps, ¬ AllInterrupted s'' sleeps := by
  obtain ⟨k, np, r, start, t, ret, hl, rfl, hlate⟩ := not_forkedInTime hC
  have hr' : Reach (Sys.step (Program.interupt.main args)) Free _ s' := hr.tail trivial hs
  obtain ⟨hl', hfork, ho⟩ := step_forkHackbench hl hs
  have unforked : ret = -1 → s'.unreaped launcherPid = s.unreaped launcherPid := fun hret =>
    (hfork.resolve_right fun h => by omega).2
  rcases hlate with ⟨rfl, rfl, hn⟩ | ⟨ht, hlate⟩
  · have hnone : s'.unreaped launcherPid = ∅ := (unforked rfl).trans (unreaped_eq_empty hn)
    exact not_interrupted_of_writes hr' (timeWritten_of_noChild hl' hnone)
  have hheld : t ∈ s.unreaped launcherPid :=
    (Or.resolve_left ((reach_inv hr).holds _ hl) ht).unreaped
  have hne : t ≠ launcherPid := fun h => launcher_not_child hr (h ▸ hheld)
  by_cases hrun : Running s t
  · -- gzip is running, so the fork failed; gzip may then exit at any time
    obtain rfl : ret = -1 := hlate.resolve_left fun h => h hrun
    obtain ⟨s₁, o, n, img, st, te, hr₁, hT, hl₁⟩ :=
      exits_of_unreaped (reach_interupt hr').2.2 (unforked rfl ▸ hheld) hl' hne
    obtain ⟨s'', hr'', hrec⟩ := timeWritten_of_exited args (by decide) ht hl₁ hT
    exact not_interrupted_of_writes hr' ⟨s'', hr₁.trans hr'', hrec⟩
  · -- gzip has exited: it is reaped at once
    obtain ⟨o, n, img, st, te, hT⟩ := zombie_of_unreaped hheld hrun
    have h0 : ret ≠ 0 := (reach_interupt hr').2.1 _ _ _ _ hl'
    by_cases hret : ret = -1
    · subst hret
      exact not_interrupted_of_writes hr'
        (timeWritten_of_exited args h0 ht hl' ((ho t hne ht).trans hT))
    · obtain ⟨-, hfresh, hh⟩ := hfork.resolve_left fun h => hret h.1
      have htr : t ≠ ret := by rintro rfl; cases hfresh.symm.trans hT
      have hT' := (ho t hne htr).trans hT
      obtain ⟨s'', hr'', hrec⟩ := timeWritten_of_exited args h0 ht hl' hT'
      obtain ⟨T'', hT'', hb⟩ := reach_before hr'' hT'
      have hte : te < s.clock := (((reach_always hr).timed _ _ hT).exitedAt te rfl).2
      exact ⟨s'', hr'', fun _ =>
        not_interrupted_of_late hrec (hh.of_reach hr'') ⟨T'', hT'', hb.exitedAt te rfl⟩ hte⟩

end

/-- Every recorded trial of `hackbench_interupt.cpp` was interrupted in the runs whose forks of
hackbench come in time, and any other fork of hackbench leads to the time of a trial that was
not. -/
theorem interrupted_exactly (args : Args) :
    (∀ es s, exec (Sys.step (Program.interupt.main args)) ForkedInTime start es = some s →
      AllInterrupted s
        (observed (Sys.step (Program.interupt.main args)) sleepEnd? start es)) ∧
    ∀ s e s', Reach (Sys.step (Program.interupt.main args)) Free start s →
      ¬ ForkedInTime s e → s.step (Program.interupt.main args) e = some s' →
      ∃ s'', Reach (Sys.step (Program.interupt.main args)) Free s' s'' ∧
        ∀ sleeps, ¬ AllInterrupted s'' sleeps :=
  ⟨fun es _ hex => allInterrupted_of_forkedInTime es hex, fun _ _ _ hr hC hs =>
    not_interrupted_of_not_forkedInTime hr hC hs⟩

/-- A trial whose gzip exits behind the fork of hackbench. -/
def interruptedTrial : List Event :=
  [.call 1 0, .call 1 0, .call 1 0, .call 1 0, .call 1 0, .call 1 2, .call 2 0, .call 2 0,
    .pass 3000000000, .call 1 0, .call 1 3, .call 3 0, .pass 5300000, .exit 2 (.exited 0),
    .call 1 0, .call 1 2, .call 1 0, .call 1 0, .call 1 0, .call 1 0]

/-- The run of `interruptedTrial` meets the condition, and records its trial. -/
theorem interrupted_oneTrial : ∃ s,
    exec (Sys.step (Program.interupt.main {})) ForkedInTime start interruptedTrial = some s ∧
      TimeWritten s 0 3 ∧ AllInterrupted s
        (observed (Sys.step (Program.interupt.main {})) sleepEnd? start interruptedTrial) :=
  ⟨_, rfl, ⟨1, 0, _, List.mem_append_right _ (List.mem_singleton.2 rfl)⟩,
    (interrupted_exactly {}).1 interruptedTrial _ rfl⟩

/-- A trial whose gzip exits during the sleep of the launcher. -/
def gzipExitsInSleep : List Event :=
  [.call 1 0, .call 1 0, .call 1 0, .call 1 0, .call 1 0, .call 1 2, .call 2 0, .call 2 0,
    .pass 8300000, .exit 2 (.exited 0), .pass 2991700000, .call 1 0, .call 1 3, .call 1 0,
    .call 1 2, .call 1 0, .call 1 0, .call 1 0, .call 1 0]

/-- `hackbench_interupt.cpp` records the time of a gzip that no hackbench ran beside. -/
theorem gzipExitsInSleep_recorded :
    ¬ ∀ args es s, exec (Sys.step (Program.interupt.main args)) Free start es = some s →
      AllInterrupted s
        (observed (Sys.step (Program.interupt.main args)) sleepEnd? start es) := by
  intro hall
  have ha := hall {} gzipExitsInSleep _ rfl
  have hlt : 8300009 < 3000000011 := by decide
  refine not_interrupted_of_late (k := 0) (h := 3) ?_ ⟨_, 1, 0, rfl, rfl, rfl, rfl⟩ ⟨_, rfl, rfl⟩
    hlt ha
  exact ⟨1, 0, _, List.mem_append_right _ (List.mem_singleton.2 rfl)⟩

end Launcher
