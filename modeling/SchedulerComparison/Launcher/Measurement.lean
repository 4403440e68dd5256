import SchedulerComparison.Launcher.Children

/-!
# Recorded times

A line for the output file is a measurement when it gives the time from the fork to the reaping of
its own trial's test program, which ran to its end with status `0` while the trial's hackbench was
alive (`Measurement`): what the launcher read off the clock with its last call before that fork, and
with its next call after the `wait(NULL)` that reaped it. `run_trial` records a time whenever the
first `wait(NULL)` returns the value of the test program's pid variable, and checks nothing else:
not the status, not that the forks succeeded, not that hackbench is still there. `SoundWait` is the
condition on that wait, and `measured_exactly` shows that it is the exact one.

What needs no condition is proved of every run: the process was forked right after the reading
`start` in this trial (`Noted`), and a trial records at most once (`recordedOnce_step`).
-/

open Posix Posix.Sys Transition

namespace Launcher

/-- The test program of a launcher. -/
def Program.testProg : Program → Image
  | .launcher testProg => testProg
  | .interupt => gzipProg

/-- The call read the clock as `time`. -/
def Reads (code : Point → Call Point Image Out) (time : Nat) (call : Made Point) : Prop :=
  (∃ f, code call.point = .now f) ∧ call.madeAt = time

/-- `t` was forked as the test program of trial `k`, and the launcher's last call before that fork
read the clock as `start`. -/
def TestForked (code : Point → Call Point Image Out) (s : Procs) (k : Nat) (t : Int)
    (start : Nat) : Prop :=
  ∃ T o read, s.procs.lookup t = some T ∧ T.ppid = launcherPid ∧ T.origin = some o ∧
    o.forks = some (k, .testProg) ∧ Reads code start read ∧ start < T.forkedAt ∧
    [read, ⟨launcherPid, o, t, T.forkedAt⟩] <:+: s.callsOf launcherPid

/-- A wait of the launcher reaped `t` at `reapedAt`, and its next call read the clock as
`finish`. -/
def TestReaped (code : Point → Call Point Image Out) (s : Procs) (t : Int) (finish reapedAt : Nat) :
    Prop :=
  ∃ l read, (∃ f, code l = .wait f) ∧ Reads code finish read ∧ reapedAt < finish ∧
    [⟨launcherPid, l, t, reapedAt⟩, read] <:+: s.callsOf launcherPid

/-- The test program `t` of trial `k` was forked right after the reading `start`, executed
`testProg`, exited with status `0` when the trial's hackbench `h` was alive, and was reaped, at a
time of which `reaped` holds. -/
structure Ran (code : Point → Call Point Image Out) (testProg : Image) (s : Procs) (k : Nat)
    (h t : Int) (start : Nat) (reaped : Nat → Prop) : Prop where
  forked : TestForked code s k t start
  ended : ∃ T te tr, s.procs.lookup t = some T ∧
    T.life = .reaped (some testProg) (.exited 0) te tr ∧ s.AliveAt h te ∧ reaped tr
  hackbench : Forked s k .hackbench h

/-- The time from the fork to the reaping of the test program `t` of trial `k`, as the launcher
reads it off the clock: from the reading `start` right before the one to the reading `finish`
right after the other. -/
abbrev Measurement (code : Point → Call Point Image Out) (testProg : Image) (s : Procs) (k : Nat)
    (h t : Int) (start finish : Nat) : Prop :=
  Ran code testProg s k h t start (TestReaped code s t finish)

/-- The line was printed by the launcher, with the time from its variable `start` to its variable
`end`, and these measure the trial it was in. -/
def ValidLine (code : Point → Call Point Image Out) (testProg : Image) (s : Procs)
    (line : Printed Point Out) (time : Nat) : Prop :=
  ∃ k np r h t start finish, line.pid = launcherPid ∧
    line.point = .trial k np r (.compare h start t t finish) ∧ time = finish - start ∧
    Measurement code testProg s k h t start finish

/-- The trial of a line that is written to the file. -/
def fileTrial? (line : Printed Point Out) : Option Nat :=
  match line.out with
  | .file _ => line.point.trial?
  | _ => none

/-- The trials of the lines in the file. -/
def recorded (s : Procs) : List Nat := s.printed.filterMap fileTrial?

/-- Every line of the file is a measurement, and no trial has two. -/
structure Measured (code : Point → Call Point Image Out) (testProg : Image) (s : Procs) : Prop where
  valid : ∀ line ∈ s.printed, ∀ time, line.out = .file time → ValidLine code testProg s line time
  once : (recorded s).Nodup

/-- The test program `t` ended as `testProg` with status `0`, and hackbench `h` was alive then. -/
def Sound (testProg : Image) (s : Procs) (h t : Int) : Prop :=
  ∃ T ∈ s.procs.lookup t, T.life.end? = some (some testProg, .exited 0) ∧
    ∃ te ∈ T.life.exitedAt?, s.AliveAt h te

instance (testProg : Image) (s : Procs) (h t : Int) : Decidable (Sound testProg s h t) :=
  inferInstanceAs (Decidable (∃ T ∈ _, _ ∧ ∃ te ∈ _, _))

/-- A first `wait(NULL)` that returns the value of the test program's variable does so when both
forks of the trial succeeded, the test program ran to its end with status `0`, and hackbench had
not ended before it. -/
def SoundWait (testProg : Image) (s : Procs) (e : Event) : Prop :=
  ∀ v ∈ (s.point? launcherPid).bind Point.waitsFor?, e.returns? launcherPid = some v.2 →
    Sound testProg s v.1 v.2

instance (testProg : Image) (s : Procs) (e : Event) : Decidable (SoundWait testProg s e) :=
  inferInstanceAs (Decidable (∀ v ∈ _, _ → _))

section
variable {c : Program} {args : Args} {s s' : Procs} {k : Nat} {h t : Int} {start finish : Nat}
  {e : Event} {testProg : Image}

/-! ## What a step keeps of a measurement -/

/-- The calls that were made are not taken back. -/
theorem callsOf_step (hs : s.step (c.main args) e = some s') :
    s.callsOf launcherPid <+: s'.callsOf launcherPid := by
  rcases step_callsOf hs launcherPid with ⟨hcalls, -⟩ | ⟨ret, l, -, -, hcalls⟩
  · rw [hcalls]
  · exact ⟨_, hcalls.symm⟩

theorem TestForked.step (hs : s.step (c.main args) e = some s')
    (hf : TestForked (c.main args) s k t start) : TestForked (c.main args) s' k t start := by
  obtain ⟨T, o, read, h1, h2, h3, h4, h5, h6, h7⟩ := hf
  obtain ⟨T', h1', hb⟩ := step_before hs h1
  exact ⟨T', o, read, h1', hb.ppid.trans h2, hb.origin.trans h3, h4, h5, hb.forkedAt ▸ h6,
    hb.forkedAt ▸ h7.trans (callsOf_step hs).isInfix⟩

theorem TestReaped.step {reapedAt : Nat} (hs : s.step (c.main args) e = some s')
    (hr : TestReaped (c.main args) s t finish reapedAt) :
    TestReaped (c.main args) s' t finish reapedAt := by
  obtain ⟨l, read, h1, h2, h3, h4⟩ := hr
  exact ⟨l, read, h1, h2, h3, h4.trans (callsOf_step hs).isInfix⟩

theorem Ran.step {reaped reaped' : Nat → Prop} (hs : s.step (c.main args) e = some s')
    (ht : Timed s) (hreaped : ∀ tr, reaped tr → reaped' tr)
    (hm : Ran (c.main args) testProg s k h t start reaped) :
    Ran (c.main args) testProg s' k h t start reaped' := by
  obtain ⟨T, te, tr, hT, hl, ha, htr⟩ := hm.ended
  obtain ⟨T', hT', hb⟩ := step_before hs hT
  obtain rfl : T' = T := hb.reaped (by rw [hl]; rfl)
  have hte : te < s.clock := ((ht t T' hT).exitedAt te (by rw [hl]; rfl)).2
  exact ⟨hm.forked.step hs, ⟨T', te, tr, hT', hl, ha.step hs hte, hreaped tr htr⟩,
    hm.hackbench.step hs⟩

theorem ValidLine.step {line : Printed Point Out} {time : Nat}
    (hs : s.step (c.main args) e = some s') (ht : Timed s)
    (hv : ValidLine (c.main args) testProg s line time) :
    ValidLine (c.main args) testProg s' line time := by
  obtain ⟨k, np, r, h, t, start, finish, h1, h2, h3, hm⟩ := hv
  exact ⟨k, np, r, h, t, start, finish, h1, h2, h3, hm.step hs ht fun _ => TestReaped.step hs⟩

/-! ## The launcher's readings -/

/-- The launcher's last call read the clock as `start`. -/
def JustRead (code : Point → Call Point Image Out) (s : Procs) (start : Nat) : Prop :=
  ∃ read, Reads code start read ∧ start < s.clock ∧ [read] <:+ s.callsOf launcherPid

/-- The launcher's last call was a wait that reaped `t` at `reapedAt`. -/
def JustReaped (code : Point → Call Point Image Out) (s : Procs) (t : Int) (reapedAt : Nat) :
    Prop :=
  ∃ l, (∃ f, code l = .wait f) ∧ reapedAt < s.clock ∧
    [⟨launcherPid, l, t, reapedAt⟩] <:+ s.callsOf launcherPid

/-- What the clock readings at a control point of `run_trial` say about the test program. -/
def TrialNoted (code : Point → Call Point Image Out) (testProg : Image) (s : Procs) (k : Nat) :
    TrialPoint → Prop
  | .forkTestProc _ start | .interuptForkTestProc start => JustRead code s start
  | .testProcForked _ start t | .wait _ start t | .interuptTestProcForked start t
  | .interuptForkHackbench start t | .interuptHackbenchForked start t _ =>
    t = -1 ∨ TestForked code s k t start
  | .waited h start t w => w = t → Ran code testProg s k h t start (JustReaped code s t)
  | .tidy h start t w finish | .compare h start t w finish =>
    w = t → Measurement code testProg s k h t start finish
  | _ => True

/-- What the clock readings at a control point say. -/
def NotedAt (code : Point → Call Point Image Out) (testProg : Image) (s : Procs) : Point → Prop
  | .trial k _ _ p => TrialNoted code testProg s k p
  | _ => True

/-- What the launcher's clock readings say. -/
def Noted (code : Point → Call Point Image Out) (testProg : Image) (s : Procs) : Prop :=
  ∀ l, LauncherAt s l → NotedAt code testProg s l

/-- A call of the launcher has a meaning, and is its last one then. -/
theorem callsOf_call {l : Point} {ret : Int} (hl : LauncherAt s l)
    (hs : s.step (c.main args) (.call launcherPid ret) = some s') :
    c.main args l ≠ .undefined ∧
      s'.callsOf launcherPid = s.callsOf launcherPid ++ [⟨launcherPid, l, ret, s.clock⟩] := by
  obtain ⟨P, hP, hl⟩ := hl
  constructor
  · obtain ⟨P₁, l₁, s₁, hP₁, hl₁, hcall, -⟩ := step_call hs
    cases hP.symm.trans hP₁
    cases hl.symm.trans hl₁
    rintro hu
    rw [hu] at hcall
    cases hcall
  · rcases step_callsOf hs launcherPid with ⟨-, hne⟩ | ⟨ret', l', he, hl', hcalls⟩
    · exact absurd rfl (hne ret)
    · cases he
      cases (point?_eq_some.2 ⟨P, hP, hl⟩).symm.trans hl'
      exact hcalls

/-- The last call and the one that follows it are next to each other. -/
theorem infix_of_suffix {α : Type} {a b : α} {as : List α} (h : [a] <:+ as) :
    [a, b] <:+: as ++ [b] := by
  obtain ⟨init, rfl⟩ := h
  exact ⟨init, [], by simp⟩

/-- An event that is no call of the launcher keeps what the readings say. -/
theorem NotedAt.step {l : Point} (hs : s.step (c.main args) e = some s') (ht : Timed s)
    (he : ∀ ret, e ≠ .call launcherPid ret) (hn : NotedAt (c.main args) testProg s l) :
    NotedAt (c.main args) testProg s' l := by
  have hclock : s.clock < s'.clock := step_clock hs
  have hcalls : s'.callsOf launcherPid = s.callsOf launcherPid := by
    rcases step_callsOf hs launcherPid with ⟨hcalls, -⟩ | ⟨ret, _, hcall, -⟩
    · exact hcalls
    · exact absurd hcall (he ret)
  cases l with
  | begin | pairs | reps | done => trivial
  | trial k np r p =>
    cases p with
    | forkTestProc | interuptForkTestProc =>
      obtain ⟨read, hread, hlt, hlast⟩ := hn
      exact ⟨read, hread, hlt.trans hclock, hcalls ▸ hlast⟩
    | testProcForked | wait | interuptTestProcForked | interuptForkHackbench
    | interuptHackbenchForked => exact Or.imp_right (TestForked.step hs) hn
    | waited =>
      refine fun hw => (hn hw).step hs ht fun tr htr => ?_
      obtain ⟨l, hl, hlt, hlast⟩ := htr
      exact ⟨l, hl, hlt.trans hclock, hcalls ▸ hlast⟩
    | tidy | compare => exact fun hw => (hn hw).step hs ht fun _ => TestReaped.step hs
    | _ => trivial

/-- A call that neither forks nor waits keeps what the readings say. -/
theorem NotedAt.flow {l l' : Point} {ret : Int}
    (hs : s.step (c.main args) (.call launcherPid ret) = some s') (ht : Timed s)
    (hl : LauncherAt s l) (hf : Flow s.clock l l') (ha : At s l)
    (hn : NotedAt (c.main args) testProg s l) : NotedAt (c.main args) testProg s' l' := by
  have hclock : s.clock < s'.clock := step_clock hs
  obtain ⟨hdef, hcalls⟩ := callsOf_call hl hs
  cases hf with
  | begin | reps | done | pairs | rep => trivial
  | trial _ _ _ hf => rcases hf with rfl | rfl <;> trivial
  | run k np r hp =>
    cases hp with
    | start | interuptStart =>
      refine ⟨_, ⟨?_, rfl⟩, hclock, _, hcalls.symm⟩
      -- one of the two launchers is never there
      cases c <;> first | exact ⟨_, rfl⟩ | exact absurd rfl hdef
    | testProc | interuptTestProc | interuptHackbench => exact Or.imp_right (TestForked.step hs) hn
    | finish =>
      refine fun hw => (hn hw).step hs ht fun tr htr => ?_
      obtain ⟨l, hl, hlt, hlast⟩ := htr
      refine ⟨l, _, hl, ⟨?_, rfl⟩, hlt, hcalls ▸ infix_of_suffix hlast⟩
      cases c <;> exact ⟨_, rfl⟩
    | tidy => exact fun hw => (hn hw).step hs ht fun _ => TestReaped.step hs
    | testChild hp =>
      rcases hp with ⟨h, start, rfl⟩ | ⟨start, rfl⟩
      · exact (Both.testProg ha).ne_zero.elim
      · exact (HoldsOr.ne_zero ha).elim
    | _ => trivial

/-- A fork of the test program comes right after the reading. -/
theorem NotedAt.forked {l : Point} {n : Nat} {role : Role} {f : Int → Point} {ret : Int}
    (hs : s.step (c.main args) (.call launcherPid ret) = some s') (hl : LauncherAt s l)
    (hf : ForksAt l n role f)
    (hc : s'.procs.lookup ret = some ⟨launcherPid, some l, s.clock, .code (f 0)⟩)
    (hn : NotedAt (c.main args) testProg s l) : NotedAt (c.main args) testProg s' (f ret) := by
  have hcalls := (callsOf_call hl hs).2
  cases hf with
  | hackbench => trivial
  | testProg n np r h start | interuptTestProg n np r start =>
    obtain ⟨read, hread, hlt, hlast⟩ := hn
    exact .inr ⟨_, _, read, hc, rfl, rfl, rfl, hread, hlt, hcalls ▸ infix_of_suffix hlast⟩
  | interuptHackbench => exact Or.imp_right (TestForked.step hs) hn

theorem NotedAt.forkFailed {l : Point} {n : Nat} {role : Role} {f : Int → Point}
    (hs : s.step (c.main args) e = some s') (hf : ForksAt l n role f)
    (hn : NotedAt (c.main args) testProg s l) : NotedAt (c.main args) testProg s' (f (-1)) := by
  cases hf with
  | hackbench => trivial
  | testProg | interuptTestProg => exact .inl rfl
  | interuptHackbench => exact Or.imp_right (TestForked.step hs) hn

/-- Nothing is known of the pid `-1`. -/
theorem Sound.ne_neg (hpos : Positive s) (hS : Sound testProg s h t) : h ≠ -1 ∧ t ≠ -1 := by
  obtain ⟨T, hT, -, te, -, H, hH, -⟩ := hS
  have := hpos _ _ hT
  have := hpos _ _ hH
  omega

/-- A sound first wait gives a measurement. -/
theorem NotedAt.reaped {l : Point} {f : Int → Point} {ret : Int} {o : Option Point} {n te : Nat}
    {img : Option Image} {st : Status} (hs : s.step (c.main args) (.call launcherPid ret) = some s')
    (hl : LauncherAt s l) (hw : WaitsAt l f) (ht : Timed s) (hpos : Positive s) (ha : At s l)
    (hn : NotedAt (c.main args) testProg s l) (hC : SoundWait testProg s (.call launcherPid ret))
    (hc : s.procs.lookup ret = some ⟨launcherPid, o, n, .zombie img st te⟩)
    (hc' : s'.procs.lookup ret = some ⟨launcherPid, o, n, .reaped img st te s.clock⟩) :
    NotedAt (c.main args) testProg s' (f ret) := by
  have hcalls := (callsOf_call hl hs).2
  cases hw with
  | second => trivial
  | first k np r h start t =>
    rintro rfl
    have hb : Both s k h ret := ha
    have hS : Sound testProg s h ret := hC (h, ret) (by rw [point?_eq_some.2 hl]; rfl) rfl
    obtain ⟨hh, hret⟩ := hS.ne_neg hpos
    obtain ⟨T, hT, hend, te', hte, halive⟩ := hS
    cases (Option.mem_def.1 hT).symm.trans hc
    cases hend
    cases hte
    have hpast : te < s.clock := ((ht _ _ hc).exitedAt te rfl).2
    refine ⟨(hn.resolve_left hret).step hs, ⟨_, te, s.clock, hc', rfl, halive.step hs hpast,
      ⟨_, ?_, step_clock hs, _, hcalls.symm⟩⟩, (hb.hackbench.resolve_left hh).forked.step hs⟩
    cases c <;> exact ⟨_, rfl⟩

/-- A sound first wait does not find that there is no child. -/
theorem NotedAt.noChild {l : Point} {f : Int → Point} (hl : LauncherAt s l) (hw : WaitsAt l f)
    (hpos : Positive s) (hC : SoundWait testProg s (.call launcherPid (-1))) :
    NotedAt (c.main args) testProg s' (f (-1)) := by
  cases hw with
  | second => trivial
  | first k np r h start t =>
    rintro rfl
    have hS : Sound testProg s h (-1) := hC (h, -1) (by rw [point?_eq_some.2 hl]; rfl) rfl
    exact absurd rfl (hS.ne_neg hpos).2

theorem noted_step (hi : Inv s) (ht : Timed s) (hpos : Positive s)
    (hn : Noted (c.main args) testProg s) (hC : SoundWait testProg s e)
    (hs : s.step (c.main args) e = some s') : Noted (c.main args) testProg s' := by
  intro l' hl'
  cases move_of_step hs hi.present hl' with
  | other he hl _ => exact (hn l' hl).step hs ht he
  | goes he hl hg _ =>
    subst he
    exact (hn _ hl).flow hs ht hl hg (hi.holds _ hl)
  | forkFailed _ hl hf hl' _ =>
    subst hl'
    exact (hn _ hl).forkFailed hs hf
  | forked he hl hf hl' _ _ hc _ =>
    subst hl' he
    exact (hn _ hl).forked hs hl hf hc
  | noChild he hl hw hl' _ _ =>
    subst hl' he
    exact NotedAt.noChild hl hw hpos hC
  | reaped he hl hw hl' _ hc hc' _ =>
    subst hl' he
    exact (hn _ hl).reaped hs hl hw ht hpos (hi.holds _ hl) hC hc hc'

/-! ## The lines -/

/-- A line is written to the file after the first wait returned the test program's pid. -/
theorem main_print_file {l l' : Point} {time : Nat}
    (hl : c.main args l = .print (.file time) l') :
    ∃ k np r h start t finish, l = .trial k np r (.compare h start t t finish) ∧
      time = finish - start ∧ l' = .trial k np r (.coutTime h (finish - start)) := by
  cases hl ▸ main_calls c args l with
  | file k np r h start t finish => exact ⟨k, np, r, h, start, t, finish, rfl, rfl, rfl⟩
  | print _ _ _ hout => exact absurd rfl (hout time)

/-- A step writes nothing to the file, or it is the launcher's and writes the time from its
`start` to its `end`. -/
theorem step_file (hch : InChildren s) (hs : s.step (c.main args) e = some s') :
    (∃ new, s'.printed = s.printed ++ new ∧ ∀ line ∈ new, ∀ time, line.out ≠ .file time) ∨
    ∃ k np r h start t finish, LauncherAt s (.trial k np r (.compare h start t t finish)) ∧
      LauncherAt s' (.trial k np r (.coutTime h (finish - start))) ∧
      s'.printed = s.printed ++ [⟨launcherPid, .trial k np r (.compare h start t t finish),
        .file (finish - start)⟩] := by
  rcases step_printed hs with hpr | ⟨p, ret, P, l, out, l', rfl, hP, hl, hc, hpr, hP'⟩
  · exact .inl ⟨[], by rw [hpr, List.append_nil], fun _ h => absurd h List.not_mem_nil⟩
  · by_cases hout : ∃ time, out = .file time
    · obtain ⟨time, rfl⟩ := hout
      obtain ⟨k, np, r, h, start, t, finish, rfl, rfl, rfl⟩ := main_print_file hc
      obtain rfl : p = launcherPid := by
        by_contra hne
        cases hch p P _ hne hP hl with
        | trial _ _ _ hp => cases hp
      exact .inr ⟨k, np, r, h, start, t, finish, ⟨P, hP, hl⟩, ⟨_, hP', rfl⟩, hpr⟩
    · refine .inl ⟨_, hpr, fun line hline time heq => hout ⟨time, ?_⟩⟩
      rw [List.mem_singleton.1 hline] at heq
      exact heq

/-- Every line of the file is a measurement. -/
def ValidLines (code : Point → Call Point Image Out) (testProg : Image) (s : Procs) : Prop :=
  ∀ line ∈ s.printed, ∀ time, line.out = .file time → ValidLine code testProg s line time

theorem validLines_step (ht : Timed s) (hch : InChildren s) (hn : Noted (c.main args) testProg s)
    (hv : ValidLines (c.main args) testProg s) (hs : s.step (c.main args) e = some s') :
    ValidLines (c.main args) testProg s' := by
  have old : ∀ line ∈ s.printed, ∀ time, line.out = .file time →
      ValidLine (c.main args) testProg s' line time :=
    fun line hline time hout => (hv line hline time hout).step hs ht
  intro line hline time hout
  rcases step_file hch hs with ⟨new, hpr, hnew⟩ | ⟨k, np, r, h, start, t, finish, hl, -, hpr⟩
  · rw [hpr, List.mem_append] at hline
    rcases hline with hline | hline
    · exact old line hline time hout
    · exact absurd hout (hnew line hline time)
  · rw [hpr, List.mem_append] at hline
    rcases hline with hline | hline
    · exact old line hline time hout
    · obtain rfl := List.mem_singleton.1 hline
      cases hout
      have hm : Measurement (c.main args) testProg s k h t start finish := hn _ hl rfl
      exact ⟨k, np, r, h, t, start, finish, rfl, rfl, rfl,
        hm.step hs ht fun _ => TestReaped.step hs⟩

/-! ## One line for a trial -/

/-- `run_trial` is past the two places where it prints the time or returns instead. -/
def TrialPoint.pastRecord : TrialPoint → Bool
  | .coutTime .. | .kill _ | .waitHackbench _ | .hackbenchWaited .. | .returned => true
  | _ => false

/-- The first trial that could still record. -/
def Point.nextTrial? : Point → Option Nat
  | .begin => some 0
  | .pairs k _ | .reps k _ _ => some k
  | .trial k _ _ p => some (if p.pastRecord then k + 1 else k)
  | .done => none

theorem nextTrial?_flow {l l' : Point} {n : Nat} (hf : Flow n l l') :
    ∀ m' ∈ l'.nextTrial?, ∃ m ∈ l.nextTrial?, m ≤ m' := by
  cases hf with
  | begin | reps | pairs | rep => exact fun m hm => ⟨m, hm, le_rfl⟩
  | done => nofun
  | trial _ _ _ hf => rcases hf with rfl | rfl <;> exact fun m hm => ⟨m, hm, le_rfl⟩
  | run k np r hp =>
    rintro _ ⟨⟩
    refine ⟨_, rfl, ?_⟩
    cases hp with
    | testChild hp hp' =>
      rcases hp with ⟨h, start, rfl⟩ | ⟨start, rfl⟩ <;> rcases hp' with rfl | rfl <;> exact le_rfl
    | waitError | record => exact Nat.le_succ k
    | _ => exact le_rfl

/-- The trials that recorded differ, and the launcher is past them. -/
structure RecordedOnce (s : Procs) : Prop where
  once : (recorded s).Nodup
  past : ∀ l, LauncherAt s l → ∀ n ∈ l.nextTrial?, ∀ k ∈ recorded s, k < n

/-- The next trial does not come down. -/
theorem nextTrial?_step (hi : Inv s) {l' : Point} (hs : s.step (c.main args) e = some s')
    (hl' : LauncherAt s' l') :
    ∃ l, LauncherAt s l ∧ ∀ m' ∈ l'.nextTrial?, ∃ m ∈ l.nextTrial?, m ≤ m' := by
  cases move_of_step hs hi.present hl' with
  | other _ hl _ => exact ⟨l', hl, fun m hm => ⟨m, hm, le_rfl⟩⟩
  | goes _ hl hg _ => exact ⟨_, hl, nextTrial?_flow hg⟩
  | forkFailed _ hl hf hl' _ | forked _ hl hf hl' _ _ _ _ =>
    subst hl'
    exact ⟨_, hl, by cases hf <;> exact fun m hm => ⟨m, hm, le_rfl⟩⟩
  | noChild _ hl hw hl' _ _ | reaped _ hl hw hl' _ _ _ _ =>
    subst hl'
    exact ⟨_, hl, by cases hw <;> exact fun m hm => ⟨m, hm, le_rfl⟩⟩

theorem recordedOnce_step (hi : Inv s) (hch : InChildren s) (hr : RecordedOnce s)
    (hs : s.step (c.main args) e = some s') : RecordedOnce s' := by
  rcases step_file hch hs with ⟨new, hpr, hnew⟩ | ⟨k, np, r, h, start, t, finish, hl, hl', hpr⟩
  · have hrec : recorded s' = recorded s := by
      have hnil : new.filterMap fileTrial? = [] := by
        refine List.filterMap_eq_nil_iff.2 fun line hline => ?_
        have := hnew line hline
        unfold fileTrial?
        split
        · next time hout => exact absurd hout (this time)
        · rfl
      rw [recorded, hpr, List.filterMap_append, hnil, List.append_nil, recorded]
    refine ⟨hrec ▸ hr.once, fun l' hl' m' hm' k hk => ?_⟩
    obtain ⟨l, hl, hle⟩ := nextTrial?_step hi hs hl'
    obtain ⟨m, hm, hmm⟩ := hle m' hm'
    exact (hr.past l hl m hm k (hrec ▸ hk)).trans_le hmm
  · have hrec : recorded s' = recorded s ++ [k] := by
      rw [recorded, hpr, List.filterMap_append]
      rfl
    have hlt : ∀ j ∈ recorded s, j < k := hr.past _ hl k rfl
    refine ⟨?_, fun l'' hl'' m hm j hj => ?_⟩
    · rw [hrec, List.nodup_append]
      refine ⟨hr.once, List.nodup_singleton k, fun a ha b hb => ?_⟩
      rw [List.mem_singleton.1 hb]
      exact (hlt a ha).ne
    · obtain rfl := hl'.unique hl''
      obtain rfl : k + 1 = m := Option.some.inj hm
      rw [hrec, List.mem_append] at hj
      rcases hj with hj | hj
      · exact (hlt j hj).trans k.lt_succ_self
      · rw [List.mem_singleton.1 hj]
        exact k.lt_succ_self

end

/-! ## Measurements -/

section
variable {c : Program} {args : Args} {s s' : Procs} {e : Event} {testProg : Image}

/-- What is true in every run. -/
structure Always (s : Procs) : Prop where
  inv : Inv s
  inChildren : InChildren s
  positive : Positive s
  timed : Timed s
  recordedOnce : RecordedOnce s

theorem recordedOnce_start : RecordedOnce start :=
  ⟨List.nodup_nil, fun _ _ _ _ _ hk => absurd hk List.not_mem_nil⟩

theorem always_start : Always start :=
  ⟨inv_start, inChildren_start, positive_init (by decide), timed_init,
    recordedOnce_start⟩

theorem always_step (ha : Always s) (hs : s.step (c.main args) e = some s') : Always s' :=
  ⟨inv_step ha.inv hs, inChildren_step ha.inChildren hs, step_positive hs ha.positive,
    step_timed hs ha.timed, recordedOnce_step ha.inv ha.inChildren ha.recordedOnce hs⟩

theorem reach_always {C : Procs → Event → Prop}
    (h : Reach (Sys.step (c.main args)) C start s) : Always s :=
  h.invariant (always_start) fun _ _ _ ha _ hs => always_step ha hs

theorem noted_start : Noted (c.main args) testProg start := by
  rintro l ⟨P, hP, hl⟩
  cases hP
  cases hl
  trivial

/-- In a run whose first waits are sound, every line of the file is a measurement. -/
theorem measured_of_soundWait
    (hr : Reach (Sys.step (c.main args)) (SoundWait testProg) start s) :
    Measured (c.main args) testProg s := by
  have hinv : Always s ∧ Noted (c.main args) testProg s ∧ ValidLines (c.main args) testProg s := by
    refine hr.invariant
      (I := fun s => Always s ∧ Noted (c.main args) testProg s ∧
        ValidLines (c.main args) testProg s)
      ⟨always_start, noted_start, fun _ h => absurd h List.not_mem_nil⟩ ?_
    rintro s e s' ⟨ha, hn, hv⟩ hC hs
    exact ⟨always_step ha hs, noted_step ha.inv ha.timed ha.positive hn hC hs,
      validLines_step ha.timed ha.inChildren hn hv hs⟩
  exact ⟨hinv.2.2, hinv.1.recordedOnce.once⟩

/-- `run_trial` records after a first wait that returned the value of the test program's
variable. -/
theorem records_of_waited {k start : Nat} {np r h t : Int} (hfile : args.fileValid = true)
    (hl : LauncherAt s (.trial k np r (.waited h start t t))) :
    ∃ s' finish, Reach (Sys.step (c.main args)) Free s s' ∧
      ⟨launcherPid, .trial k np r (.compare h start t t finish), .file (finish - start)⟩ ∈
        s'.printed := by
  obtain ⟨s₁, hr₁, ⟨P, hP, hl₁⟩, -⟩ := launcher_waited c args hl
  have hprint := main_compare c args k start s.clock np r h t
  rw [if_pos hfile] at hprint
  obtain ⟨s₂, hs₂, -, hpr⟩ := step_of_print 0 hP hl₁ hprint
  refine ⟨s₂, s.clock, hr₁.tail trivial hs₂, ?_⟩
  rw [hpr]
  exact List.mem_append_right _ (List.mem_singleton.2 rfl)

/-- A first wait that is not sound and returns the value of the test program's variable leads to
a line that is no measurement. -/
theorem not_measured_of_not_soundWait (hfile : args.fileValid = true)
    (hr : Reach (Sys.step (c.main args)) Free start s) (hC : ¬ SoundWait testProg s e)
    (hs : s.step (c.main args) e = some s') :
    ∃ s'', Reach (Sys.step (c.main args)) Free s' s'' ∧ ¬ Measured (c.main args) testProg s'' := by
  simp only [SoundWait, not_forall] at hC
  obtain ⟨⟨h, t⟩, hv, hret, hS⟩ := hC
  obtain ⟨k, np, r, start, hl⟩ := launcherAt_wait hv
  obtain rfl := Event.returns?_eq_some.1 hret
  obtain ⟨hl', hwait⟩ := step_firstWait hl hs
  obtain ⟨s'', finish, hr'', hline⟩ := records_of_waited (c := c) hfile hl'
  refine ⟨s'', hr'', fun hm => hS ?_⟩
  have hr' : Reach (Sys.step (c.main args)) Free s s'' :=
    (Reach.tail .refl trivial hs).trans hr''
  have hpos : Positive s'' := (reach_always (hr.trans hr')).positive
  -- the line is a measurement of the two pids that the launcher held at the wait
  obtain ⟨_, _, _, _, _, _, _, -, heq, -, hm⟩ := hm.valid _ hline _ rfl
  cases heq
  obtain ⟨T, te, tr, hT, hlife, halive, -⟩ := hm.ended
  rcases hwait with ⟨rfl, -⟩ | ⟨o, n, img, st, te', hz, hz', -⟩
  · exact absurd (hpos _ _ hT) (by decide)
  · obtain ⟨T', hT', hb⟩ := reach_before hr'' hz'
    cases hT.symm.trans hT'
    obtain rfl := hb.reaped rfl
    cases hlife
    have hh : ∃ H, s.procs.lookup h = some H := by
      rcases (Both.hackbench ((reach_inv hr).holds _ hl)) with rfl | hh
      · obtain ⟨H, hH, -⟩ := halive
        exact absurd (hpos _ _ hH) (by decide)
      · obtain ⟨H, hH, -⟩ := hh.unreaped
        exact ⟨H, hH⟩
    obtain ⟨H, hH⟩ := hh
    exact ⟨_, hz, rfl, te, rfl, halive.of_reach hr' hH⟩

/-- A line for a test program that ended in another way is no measurement. -/
theorem not_measured {code : Point → Call Point Image Out} {line : Printed Point Out}
    {k start finish time : Nat} {np r h t : Int} {T : Proc Point Image} (hline : line ∈ s.printed)
    (hpoint : line.point = .trial k np r (.compare h start t t finish))
    (hout : line.out = .file time) (hT : s.procs.lookup t = some T)
    (hend : T.life.end? ≠ some (some testProg, .exited 0)) : ¬ Measured code testProg s := by
  intro hm
  obtain ⟨_, _, _, _, _, _, _, -, hpoint', -, hm⟩ := hm.valid line hline time hout
  cases hpoint.symm.trans hpoint'
  obtain ⟨T', te, tr, hT', hl, -⟩ := hm.ended
  cases hT.symm.trans hT'
  exact hend (by rw [hl]; rfl)

end

/-- The file's lines are measurements in the runs of either launcher whose first waits are sound,
and with a file any other first wait leads to a line that is none. -/
theorem measured_exactly (c : Program) (args : Args) :
    (∀ s, Reach (Sys.step (c.main args)) (SoundWait c.testProg) start s →
      Measured (c.main args) c.testProg s) ∧
    (args.fileValid = true → ∀ s e s', Reach (Sys.step (c.main args)) Free start s →
      ¬ SoundWait c.testProg s e → s.step (c.main args) e = some s' →
      ∃ s'', Reach (Sys.step (c.main args)) Free s' s'' ∧
        ¬ Measured (c.main args) c.testProg s'') :=
  ⟨fun _ hr => measured_of_soundWait hr, fun hfile _ _ _ hr hC hs =>
    not_measured_of_not_soundWait hfile hr hC hs⟩

/-- The run of `wholeTrial` with a file meets the condition, and records its trial. -/
theorem measured_wholeTrial : ∃ s,
    exec (Sys.step (Program.main (.launcher gzipProg) { fileValid := true })) (SoundWait gzipProg)
      start wholeTrial = some s ∧ recorded s = [0] ∧
    Measured (Program.main (.launcher gzipProg) { fileValid := true }) gzipProg s :=
  ⟨_, rfl, rfl, (measured_exactly (.launcher gzipProg) { fileValid := true }).1 _
    (.of_exec wholeTrial rfl)⟩

/-- The test program's `execl` fails, its child exits with `-1`, and the first wait reaps it. -/
def execlFails : List Event :=
  [.call 1 0, .call 1 0, .call 1 0, .call 1 2, .call 1 0, .call 2 0, .call 1 0, .call 1 0,
    .call 1 0, .call 1 3, .call 1 0, .call 3 0, .call 3 (-1), .call 3 0, .call 1 3, .call 1 0,
    .call 1 0, .call 1 0]

/-- `launcher.cpp` records the time of a test program that was never executed. -/
theorem execlFails_recorded :
    ¬ ∀ testProg args s, Reach (Sys.step (Program.main (.launcher testProg) args)) Free
      start s → Measured (Program.main (.launcher testProg) args) testProg s := by
  intro h
  have hm := h gzipProg { fileValid := true } _ (.of_exec execlFails rfl)
  exact not_measured (List.mem_append_right _ (List.mem_singleton.2 rfl)) rfl rfl rfl (by decide) hm

end Launcher
