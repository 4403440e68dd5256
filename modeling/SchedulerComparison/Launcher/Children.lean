import SchedulerComparison.Launcher.RunTrial

/-!
# What the launcher's variables hold

In every run, with every outcome of the forks and every order of exits, a pid variable of the
launcher is `-1` or the pid of a child that it forked for that role in the trial it is in and
that it has not reaped (`HoldsOr`), until a `wait` hands that pid back. `At` says so for each
control point, and `reach_inv` proves it for both launchers. The results about `run_trial`
start from it.
-/

open Posix Posix.Sys Transition

namespace Launcher

/-- The two C++ launchers. -/
inductive Program where
  | launcher (testProg : Image)
  | interupt

/-- The `main` of a launcher. -/
def Program.main : Program → Args → Point → Call Point Image Out
  | .launcher testProg, args => Launcher.main testProg args
  | .interupt, args => interuptMain args

/-- Child `q` was forked by the launcher in trial `k`, for `role`. -/
def Forked (s : Procs) (k : Nat) (role : Role) (q : Int) : Prop :=
  ∃ Q o, s.procs.lookup q = some Q ∧ Q.ppid = launcherPid ∧ Q.origin = some o ∧
    o.forks = some (k, role)

/-- `q` is a child of the launcher that it forked in trial `k` for `role` and has not reaped. -/
structure Holds (s : Procs) (k : Nat) (role : Role) (q : Int) : Prop where
  pos : 0 < q
  unreaped : q ∈ s.unreaped launcherPid
  forked : Forked s k role q

/-- What a `pid_t` holds after a fork that may have failed. -/
def HoldsOr (s : Procs) (k : Nat) (role : Role) (q : Int) : Prop :=
  q = -1 ∨ Holds s k role q

/-- The two pid variables of a trial. Two forks do not return one pid. -/
structure Both (s : Procs) (k : Nat) (h t : Int) : Prop where
  hackbench : HoldsOr s k .hackbench h
  testProg : HoldsOr s k .testProg t
  ne : t = h → t = -1

/-- The two pid variables after the first `wait` returned `w`. -/
structure AfterWait (s : Procs) (k : Nat) (h t w : Int) : Prop where
  none : w = -1 → h = -1 ∧ t = -1
  hackbench : w ≠ h → HoldsOr s k .hackbench h
  testProg : w ≠ t → HoldsOr s k .testProg t
  ne : t = h → t = -1

/-- What the variables in scope at a control point of `run_trial` hold. The launcher is never
where its children go. -/
def TrialAt (s : Procs) (k : Nat) : TrialPoint → Prop
  | .hackbenchForked h | .warmUp h | .prepare h | .runProg h | .forkTestProc h _ =>
    HoldsOr s k .hackbench h
  | .testProcForked h _ t | .interuptHackbenchForked _ t h | .wait h _ t => Both s k h t
  | .interuptTestProcForked _ t | .interuptForkHackbench _ t => HoldsOr s k .testProg t
  | .waited h _ t w | .tidy h _ t w _ | .compare h _ t w _ => AfterWait s k h t w
  | .coutTime h _ | .kill h | .waitHackbench h => HoldsOr s k .hackbench h
  | .execTestProg | .exitFailed => False
  | _ => True

/-- What the variables in scope at a control point hold. -/
def At (s : Procs) : Point → Prop
  | .trial k _ _ p => TrialAt s k p
  | _ => True

/-- The launcher is at a control point. -/
def LauncherAt (s : Procs) (l : Point) : Prop :=
  ∃ P, s.procs.lookup launcherPid = some P ∧ P.life = .code l

section
variable {c : Program} {args : Args} {s s' : Procs} {k : Nat} {role : Role} {q h t w : Int}
  {e : Event}

/-! ## What a step keeps of a held pid -/

theorem Forked.step (hs : s.step (c.main args) e = some s') (hf : Forked s k role q) :
    Forked s' k role q := by
  obtain ⟨Q, o, h1, h2, h3, h4⟩ := hf
  obtain ⟨Q', h1', hb⟩ := step_before hs h1
  exact ⟨Q', o, h1', hb.ppid.trans h2, hb.origin.trans h3, h4⟩

/-- A step that leaves `q` unreaped keeps what is held in it. -/
theorem HoldsOr.step (hs : s.step (c.main args) e = some s')
    (hu : q ∈ s.unreaped launcherPid → q ∈ s'.unreaped launcherPid)
    (hq : HoldsOr s k role q) : HoldsOr s' k role q :=
  hq.imp_right fun hq => ⟨hq.pos, hu hq.unreaped, hq.forked.step hs⟩

theorem Both.step (hs : s.step (c.main args) e = some s')
    (hu : ∀ q ∈ s.unreaped launcherPid, q ∈ s'.unreaped launcherPid) (hb : Both s k h t) :
    Both s' k h t :=
  ⟨hb.hackbench.step hs (hu h), hb.testProg.step hs (hu t), hb.ne⟩

theorem AfterWait.step (hs : s.step (c.main args) e = some s')
    (hu : ∀ q ∈ s.unreaped launcherPid, q ∈ s'.unreaped launcherPid) (ha : AfterWait s k h t w) :
    AfterWait s' k h t w :=
  ⟨ha.none, fun hw => (ha.hackbench hw).step hs (hu h),
    fun hw => (ha.testProg hw).step hs (hu t), ha.ne⟩

/-- A step that reaps nobody keeps what the variables hold. -/
theorem At.step (hs : s.step (c.main args) e = some s')
    (hu : ∀ q ∈ s.unreaped launcherPid, q ∈ s'.unreaped launcherPid) {l : Point}
    (ha : At s l) : At s' l := by
  cases l with
  | begin | pairs | reps | done => trivial
  | trial k np r p =>
    cases p with
    | hackbenchForked h | warmUp h | prepare h | runProg h | forkTestProc h _
    | interuptTestProcForked _ h | interuptForkHackbench _ h | coutTime h _ | kill h
    | waitHackbench h =>
      exact HoldsOr.step hs (hu h) ha
    | testProcForked | interuptHackbenchForked | wait => exact Both.step hs hu ha
    | waited | tidy | compare => exact AfterWait.step hs hu ha
    | execTestProg | exitFailed => exact ha.elim
    | _ => trivial

/-! ## Where a launcher goes -/

/-- The steps of `run_trial`, at time `n`, that neither fork nor wait. The last four are those of
a forked child. -/
inductive TrialFlow (n : Nat) : TrialPoint → TrialPoint → Prop
  | letting (h : Int) (h0 : h ≠ 0) : TrialFlow n (.hackbenchForked h) (.warmUp h)
  | warmUp (h : Int) : TrialFlow n (.warmUp h) (.prepare h)
  | prepare (h : Int) : TrialFlow n (.prepare h) (.runProg h)
  | start (h : Int) : TrialFlow n (.runProg h) (.forkTestProc h n)
  | testProc (h : Int) (start : Nat) (t : Int) (h0 : t ≠ 0) :
      TrialFlow n (.testProcForked h start t) (.wait h start t)
  | interuptPrepare : TrialFlow n .interuptPrepare .interuptStart
  | interuptStart : TrialFlow n .interuptStart (.interuptForkTestProc n)
  | interuptTestProc (start : Nat) (t : Int) (h0 : t ≠ 0) :
      TrialFlow n (.interuptTestProcForked start t) (.interuptForkHackbench start t)
  | interuptHackbench (start : Nat) (t h : Int) (h0 : h ≠ 0) :
      TrialFlow n (.interuptHackbenchForked start t h) (.wait h start t)
  | finish (h : Int) (start : Nat) (t w : Int) :
      TrialFlow n (.waited h start t w) (.tidy h start t w n)
  | tidy (h : Int) (start : Nat) (t w : Int) (finish : Nat) :
      TrialFlow n (.tidy h start t w finish) (.compare h start t w finish)
  | waitError (h : Int) (start : Nat) (t w : Int) (finish : Nat) (hw : w ≠ t) :
      TrialFlow n (.compare h start t w finish) .returned
  | record (h : Int) (start : Nat) (t : Int) (finish : Nat) :
      TrialFlow n (.compare h start t t finish) (.coutTime h (finish - start))
  | cout (h : Int) (time : Nat) : TrialFlow n (.coutTime h time) (.kill h)
  | kill (h : Int) : TrialFlow n (.kill h) (.waitHackbench h)
  | done (h w : Int) : TrialFlow n (.hackbenchWaited h w) .returned
  | hackbenchChild : TrialFlow n (.hackbenchForked 0) .exitFailed
  | interuptHackbenchChild (start : Nat) (t : Int) :
      TrialFlow n (.interuptHackbenchForked start t 0) .exitFailed
  | testChild {p p' : TrialPoint} (hp : (∃ h start, p = .testProcForked h start 0) ∨
      ∃ start, p = .interuptTestProcForked start 0)
      (hp' : p' = .execTestProg ∨ p' = .exitFailed) : TrialFlow n p p'
  | execFailed : TrialFlow n .execTestProg .exitFailed

/-- The steps of `main`, at time `n`, that neither fork nor wait. -/
inductive Flow (n : Nat) : Point → Point → Prop
  | begin (np : Int) : Flow n .begin (.pairs 0 np)
  | reps (k : Nat) (np : Int) : Flow n (.pairs k np) (.reps k np 0)
  | done (k : Nat) (np : Int) : Flow n (.pairs k np) .done
  | trial (k : Nat) (np r : Int) {first : TrialPoint}
      (hf : first = .forkHackbench ∨ first = .interuptPrepare) :
      Flow n (.reps k np r) (.trial k np r first)
  | pairs (k : Nat) (np r np' : Int) : Flow n (.reps k np r) (.pairs k np')
  | rep (k : Nat) (np r : Int) : Flow n (.trial k np r .returned) (.reps (k + 1) np (r + 1))
  | run (k : Nat) (np r : Int) {p p' : TrialPoint} (hp : TrialFlow n p p') :
      Flow n (.trial k np r p) (.trial k np r p')

theorem pinTestProc_goes {p : TrialPoint} {n : Nat} {ret : Int}
    (hg : Goes n ret (pinTestProc args) p) : p = .execTestProg ∨ p = .exitFailed := by
  simp only [pinTestProc] at hg
  split at hg
  · cases hg
    cases ret == 0
    · exact .inr rfl
    · exact .inl rfl
  · cases hg; exact .inl rfl

theorem trialTail_flow {testProg : Image} {useOut : Bool} {p p' : TrialPoint} {n : Nat} {ret : Int}
    (hg : Goes n ret (trialTail testProg useOut p) p') : TrialFlow n p p' := by
  cases p with
  | compare h start t w finish =>
    simp only [trialTail] at hg
    split at hg
    · next hw => cases hg; exact .waitError h start t w finish hw
    · next hw =>
      simp only [ne_eq, not_not] at hw
      subst hw
      split at hg <;> cases hg <;> exact .record h start w finish
  | hackbenchWaited h w =>
    simp only [trialTail] at hg
    split at hg <;> cases hg <;> exact .done h w
  | execTestProg => cases hg; exact .execFailed
  | waited h start t w => cases hg; exact .finish h start t w
  | tidy h start t w finish => cases hg; exact .tidy h start t w finish
  | coutTime h time => cases hg; exact .cout h time
  | kill h => cases hg; exact .kill h
  | _ => cases hg

/-- The steps of `launcher.cpp`'s `run_trial` that neither fork nor wait. -/
theorem runTrial_flow {testProg : Image} {pairs : Int} {p p' : TrialPoint} {n : Nat} {ret : Int}
    (hg : Goes n ret (runTrial testProg args pairs p) p') : TrialFlow n p p' := by
  cases p with
  | hackbenchForked h =>
    simp only [runTrial] at hg
    split at hg
    · next h0 => cases hg; subst h0; exact .hackbenchChild
    · next h0 => cases hg; exact .letting h h0
  | testProcForked h start t =>
    simp only [runTrial] at hg
    split at hg
    · next h0 => subst h0; exact .testChild (.inl ⟨h, start, rfl⟩) (pinTestProc_goes hg)
    · next h0 => cases hg; exact .testProc h start t h0
  | warmUp h => cases hg; exact .warmUp h
  | prepare h => cases hg; exact .prepare h
  | runProg h => cases hg; exact .start h
  | forkHackbench | forkTestProc | interuptPrepare | interuptStart | interuptForkTestProc
  | interuptTestProcForked | interuptForkHackbench | interuptHackbenchForked => cases hg
  | _ => simp only [runTrial] at hg; exact trialTail_flow hg

/-- The same of `hackbench_interupt.cpp`'s. -/
theorem interuptRunTrial_flow {pairs : Int} {p p' : TrialPoint} {n : Nat} {ret : Int}
    (hg : Goes n ret (interuptRunTrial args pairs p) p') : TrialFlow n p p' := by
  cases p with
  | interuptTestProcForked start t =>
    simp only [interuptRunTrial] at hg
    split at hg
    · next h0 => subst h0; exact .testChild (.inr ⟨start, rfl⟩) (pinTestProc_goes hg)
    · next h0 => cases hg; exact .interuptTestProc start t h0
  | interuptHackbenchForked start t h =>
    simp only [interuptRunTrial] at hg
    split at hg
    · next h0 => cases hg; subst h0; exact .interuptHackbenchChild start t
    · next h0 => cases hg; exact .interuptHackbench start t h h0
  | interuptPrepare => cases hg; exact .interuptPrepare
  | interuptStart => cases hg; exact .interuptStart
  | forkHackbench | forkTestProc | hackbenchForked | warmUp | prepare | testProcForked | runProg
  | interuptForkTestProc | interuptForkHackbench => cases hg
  | _ => simp only [interuptRunTrial] at hg; exact trialTail_flow hg

theorem sweep_flow {first : TrialPoint} {run : Int → TrialPoint → Call TrialPoint Image Out}
    {l l' : Point} {n : Nat} {ret : Int}
    (hfirst : first = .forkHackbench ∨ first = .interuptPrepare)
    (hrun : ∀ {pairs p p'}, Goes n ret (run pairs p) p' → TrialFlow n p p')
    (hg : Goes n ret (sweep args first run l) l') : Flow n l l' := by
  cases l with
  | begin => cases hg; exact .begin _
  | pairs k np =>
    simp only [sweep] at hg
    split at hg <;> cases hg
    · exact .reps k np
    · exact .done k np
  | reps k np r =>
    simp only [sweep] at hg
    split at hg
    · cases hg; exact .trial k np r hfirst
    · split at hg <;> cases hg
      exact .pairs k np r _
  | done => cases hg
  | trial k np r p =>
    by_cases hp : p = .returned
    · subst hp
      simp only [sweep] at hg
      split at hg <;> cases hg
      exact .rep k np r
    · rw [sweep.eq_5 _ _ _ _ _ _ _ hp] at hg
      obtain ⟨p', hg', rfl⟩ := hg.of_map
      exact .run k np r (hrun hg')

/-- The steps of a launcher that neither fork nor wait. -/
theorem main_flow {l l' : Point} {n : Nat} {ret : Int} (hg : Goes n ret (c.main args l) l') :
    Flow n l l' := by
  cases c with
  | launcher testProg => exact sweep_flow (.inl rfl) runTrial_flow hg
  | interupt => exact sweep_flow (.inr rfl) interuptRunTrial_flow hg

/-- Where a launcher forks, for which role, and where it continues. -/
inductive ForksAt : Point → Nat → Role → (Int → Point) → Prop
  | hackbench (n : Nat) (np r : Int) :
      ForksAt (.trial n np r .forkHackbench) n .hackbench
        fun pid => .trial n np r (.hackbenchForked pid)
  | testProg (n : Nat) (np r h : Int) (start : Nat) :
      ForksAt (.trial n np r (.forkTestProc h start)) n .testProg
        fun pid => .trial n np r (.testProcForked h start pid)
  | interuptTestProg (n : Nat) (np r : Int) (start : Nat) :
      ForksAt (.trial n np r (.interuptForkTestProc start)) n .testProg
        fun pid => .trial n np r (.interuptTestProcForked start pid)
  | interuptHackbench (n : Nat) (np r : Int) (start : Nat) (t : Int) :
      ForksAt (.trial n np r (.interuptForkHackbench start t)) n .hackbench
        fun pid => .trial n np r (.interuptHackbenchForked start t pid)

/-- Where a launcher waits, and where it continues. -/
inductive WaitsAt : Point → (Int → Point) → Prop
  | first (n : Nat) (np r h : Int) (start : Nat) (t : Int) :
      WaitsAt (.trial n np r (.wait h start t)) fun pid => .trial n np r (.waited h start t pid)
  | second (n : Nat) (np r h : Int) :
      WaitsAt (.trial n np r (.waitHackbench h)) fun pid => .trial n np r (.hackbenchWaited h pid)

theorem ForksAt.forks {l : Point} {n : Nat} {f : Int → Point} (h : ForksAt l n role f) :
    l.forks = some (n, role) := by
  cases h <;> rfl

/-- The calls of a launcher: its forks, waits and kills and what it writes to the file are at
these points, and the others are calls of these kinds. -/
inductive Calls : Point → Call Point Image Out → Prop
  | fork {l : Point} {n : Nat} {role : Role} {f : Int → Point} (hf : ForksAt l n role f) :
      Calls l (.fork f)
  | wait {l : Point} {f : Int → Point} (hw : WaitsAt l f) : Calls l (.wait f)
  | kill (n : Nat) (np r h : Int) :
      Calls (.trial n np r (.kill h)) (.kill h (.trial n np r (.waitHackbench h)))
  | file (n : Nat) (np r h : Int) (start : Nat) (t : Int) (finish : Nat) :
      Calls (.trial n np r (.compare h start t t finish))
        (.print (.file (finish - start)) (.trial n np r (.coutTime h (finish - start))))
  | print (l l' : Point) (out : Out) (hout : ∀ time, out ≠ .file time) : Calls l (.print out l')
  | execl (l l' : Point) (img : Image) : Calls l (.execl img l')
  | exit (l : Point) (status : Int) : Calls l (.exit status)
  | now (l : Point) (f : Nat → Point) : Calls l (.now f)
  | attempt (l : Point) (f : Bool → Point) : Calls l (.attempt f)
  | throws (l l' : Point) : Calls l (.throws l')
  | skip (l l' : Point) : Calls l (.skip l')
  | undefined (l : Point) : Calls l .undefined

section
variable {testProg : Image} {useOut : Bool} {n : Nat} {np r : Int}

theorem trialTail_calls (p : TrialPoint) :
    Calls (.trial n np r p) ((trialTail testProg useOut p).map (.trial n np r)) := by
  cases p with
  | compare h start t w finish =>
    simp only [trialTail]
    split
    · exact .print _ _ _ nofun
    · next hw =>
      simp only [ne_eq, not_not] at hw
      subst hw
      split
      · exact .file n np r h start w finish
      · exact .skip _ _
  | hackbenchWaited h w =>
    simp only [trialTail]
    split
    · exact .print _ _ _ nofun
    · exact .skip _ _
  | wait h start t => exact .wait (.first n np r h start t)
  | waitHackbench h => exact .wait (.second n np r h)
  | kill h => exact .kill n np r h
  | coutTime => exact .print _ _ _ nofun
  | execTestProg => exact .execl _ _ _
  | exitFailed => exact .exit _ _
  | waited => exact .now _ _
  | tidy => exact .throws _ _
  | _ => exact .undefined _

theorem pinTestProc_calls (l : Point) : Calls l ((pinTestProc args).map (.trial n np r)) := by
  simp only [pinTestProc]
  split
  · exact .attempt _ _
  · exact .skip _ _

theorem runTrial_calls (p : TrialPoint) :
    Calls (.trial n np r p) ((runTrial testProg args np p).map (.trial n np r)) := by
  cases p with
  | forkHackbench => exact .fork (.hackbench n np r)
  | forkTestProc h start => exact .fork (.testProg n np r h start)
  | warmUp => exact .skip _ _
  | prepare => exact .throws _ _
  | runProg => exact .now _ _
  | hackbenchForked h =>
    simp only [runTrial]
    split
    · exact .execl _ _ _
    · exact .print _ _ _ nofun
  | testProcForked h start t =>
    simp only [runTrial]
    split
    · exact pinTestProc_calls _
    · exact .skip _ _
  | interuptPrepare | interuptStart | interuptForkTestProc | interuptTestProcForked
  | interuptForkHackbench | interuptHackbenchForked => exact .undefined _
  | _ => simp only [runTrial]; exact trialTail_calls _

theorem interuptRunTrial_calls (p : TrialPoint) :
    Calls (.trial n np r p) ((interuptRunTrial args np p).map (.trial n np r)) := by
  cases p with
  | interuptPrepare => exact .throws _ _
  | interuptStart => exact .now _ _
  | interuptForkTestProc start => exact .fork (.interuptTestProg n np r start)
  | interuptForkHackbench start t => exact .fork (.interuptHackbench n np r start t)
  | interuptTestProcForked start t =>
    simp only [interuptRunTrial]
    split
    · exact pinTestProc_calls _
    · exact .skip _ _
  | interuptHackbenchForked start t h =>
    simp only [interuptRunTrial]
    split
    · exact .execl _ _ _
    · exact .skip _ _
  | forkHackbench | hackbenchForked | warmUp | prepare | runProg | forkTestProc
  | testProcForked => exact .undefined _
  | _ => simp only [interuptRunTrial]; exact trialTail_calls _

end

theorem sweep_calls {first : TrialPoint} {run : Int → TrialPoint → Call TrialPoint Image Out}
    (hrun : ∀ {n np r} p, Calls (.trial n np r p) ((run np p).map (.trial n np r))) (l : Point) :
    Calls l (sweep args first run l) := by
  cases l with
  | begin => exact .print _ _ _ nofun
  | pairs =>
    simp only [sweep]
    split <;> exact .skip _ _
  | reps =>
    simp only [sweep]
    split
    · exact .print _ _ _ nofun
    · split
      · exact .skip _ _
      · exact .undefined _
  | done => exact .exit _ _
  | trial n np r p =>
    by_cases hp : p = .returned
    · subst hp
      simp only [sweep]
      split
      · exact .skip _ _
      · exact .undefined _
    · rw [sweep.eq_5 _ _ _ _ _ _ _ hp]
      exact hrun p

/-- The calls of both launchers are these. -/
theorem main_calls (c : Program) (args : Args) (l : Point) : Calls l (c.main args l) := by
  cases c with
  | launcher testProg => exact sweep_calls runTrial_calls l
  | interupt => exact sweep_calls interuptRunTrial_calls l

/-- The forks of a launcher are at these points. -/
theorem main_fork {l : Point} {f : Int → Point} (hf : c.main args l = .fork f) :
    ∃ n role, ForksAt l n role f := by
  cases hf ▸ main_calls c args l with
  | fork hf => exact ⟨_, _, hf⟩

/-- The waits of a launcher are at these points. -/
theorem main_wait {l : Point} {f : Int → Point} (hf : c.main args l = .wait f) : WaitsAt l f := by
  cases hf ▸ main_calls c args l with
  | wait hw => exact hw

/-! ## The launcher's moves -/

/-- How an event can bring the launcher to `l'`, and what becomes of its unreaped children. -/
inductive Move (c : Program) (args : Args) (s : Procs) (e : Event) (s' : Procs) (l' : Point) : Prop
  | other (he : ∀ ret, e ≠ .call launcherPid ret) (hl : LauncherAt s l')
      (hu : s'.unreaped launcherPid = s.unreaped launcherPid)
  | goes {l : Point} {ret : Int} (he : e = .call launcherPid ret) (hl : LauncherAt s l)
      (hg : Flow s.clock l l')
      (hu : s'.unreaped launcherPid = s.unreaped launcherPid)
  | forkFailed {l : Point} {n : Nat} {role : Role} {f : Int → Point}
      (he : e = .call launcherPid (-1)) (hl : LauncherAt s l) (hf : ForksAt l n role f)
      (hl' : l' = f (-1)) (hu : s'.unreaped launcherPid = s.unreaped launcherPid)
  | forked {l : Point} {n : Nat} {role : Role} {f : Int → Point} {ret : Int}
      (he : e = .call launcherPid ret) (hl : LauncherAt s l) (hf : ForksAt l n role f)
      (hl' : l' = f ret) (h0 : 0 < ret) (hn : s.procs.lookup ret = none)
      (hc : s'.procs.lookup ret = some ⟨launcherPid, some l, s.clock, .code (f 0)⟩)
      (hu : s'.unreaped launcherPid = insert ret (s.unreaped launcherPid))
  | noChild {l : Point} {f : Int → Point} (he : e = .call launcherPid (-1))
      (hl : LauncherAt s l) (hw : WaitsAt l f) (hl' : l' = f (-1))
      (hn : s.unreaped launcherPid = ∅) (hu : s'.unreaped launcherPid = ∅)
  | reaped {l : Point} {f : Int → Point} {ret : Int} {o : Option Point} {n t : Nat}
      {img : Option Image} {st : Status} (he : e = .call launcherPid ret)
      (hl : LauncherAt s l) (hw : WaitsAt l f) (hl' : l' = f ret) (hr : ret ≠ -1)
      (hc : s.procs.lookup ret = some ⟨launcherPid, o, n, .zombie img st t⟩)
      (hc' : s'.procs.lookup ret = some ⟨launcherPid, o, n, .reaped img st t s.clock⟩)
      (hu : s'.unreaped launcherPid = s.unreaped launcherPid \ {ret})

/-- The launcher's moves are these. -/
theorem move_of_step (hs : s.step (c.main args) e = some s')
    (hP : (s.procs.lookup launcherPid).isSome) {l' : Point} (hl' : LauncherAt s' l') :
    Move c args s e s' l' := by
  obtain ⟨P', hP', hcode'⟩ := hl'
  cases step_arrives hs hP' hcode' with
  | same he hp hu => exact .other he ⟨P', hp, hcode'⟩ hu
  | goes he hp hl hg hu => exact .goes he ⟨_, hp, hl⟩ (main_flow hg) hu
  | forkFailed he hp hl hf hl' hu =>
    obtain ⟨n, role, hf⟩ := main_fork hf
    exact .forkFailed he ⟨_, hp, hl⟩ hf hl' hu
  | forked he hp hl hf hl' h0 hn hr hu =>
    obtain ⟨n, role, hf⟩ := main_fork hf
    exact .forked he ⟨_, hp, hl⟩ hf hl' h0 hn hr hu
  | noChild he hp hl hw hl' hn hu => exact .noChild he ⟨_, hp, hl⟩ (main_wait hw) hl' hn hu
  | reaped he hp hl hw hl' hr hz hz' hu =>
    exact .reaped he ⟨_, hp, hl⟩ (main_wait hw) hl' hr hz hz' hu
  | born _ _ _ _ _ _ hn => rw [hn] at hP; cases hP

/-- A first wait finds no child, or reaps one. -/
theorem step_firstWait {np r ret : Int} {start : Nat}
    (hl : LauncherAt s (.trial k np r (.wait h start t)))
    (hs : s.step (c.main args) (.call launcherPid ret) = some s') :
    LauncherAt s' (.trial k np r (.waited h start t ret)) ∧
    (ret = -1 ∧ s.unreaped launcherPid = ∅ ∨ ∃ o n img st te,
      s.procs.lookup ret = some ⟨launcherPid, o, n, .zombie img st te⟩ ∧
      s'.procs.lookup ret = some ⟨launcherPid, o, n, .reaped img st te s.clock⟩ ∧
      s'.unreaped launcherPid = s.unreaped launcherPid \ {ret}) := by
  obtain ⟨P, l, s₁, hp, hl₁, hc, rfl⟩ := step_call hs
  obtain ⟨P', hp', hl'⟩ := hl
  cases hp.symm.trans hp'
  cases hl₁.symm.trans hl'
  have hwait : c.main args (.trial k np r (.wait h start t)) =
      .wait fun pid => .trial k np r (.waited h start t pid) := by
    cases c <;> rfl
  rw [hwait] at hc
  rcases call_wait hc with ⟨rfl, hn, rfl⟩ | ⟨-, o, n, img, st, te, hz, rfl⟩
  · exact ⟨⟨_, lookup_live_self, rfl⟩, .inl ⟨rfl, unreaped_eq_empty hn⟩⟩
  · have hne : ret ≠ launcherPid := by rintro rfl; rw [hz] at hp; cases hp; cases hl₁
    refine ⟨⟨_, lookup_live_self, rfl⟩, .inr ⟨o, n, img, st, te, hz, ?_, ?_⟩⟩
    · rw [procs_tick, lookup_live_ne hne]
      exact lookup_put_self
    · exact unreaped_wait (x := .code (.trial k np r (.waited h start t ret)))
        (y := .reaped img st te s.clock) hp (by rw [hl₁]; rfl) rfl rfl hne.symm rfl

/-- A call of the launcher that neither forks nor waits can be made, and keeps its children. -/
theorem launcher_goes {l l' : Point} (hl : LauncherAt s l)
    (hg : Goes s.clock 0 (c.main args l) l') :
    ∃ s', s.step (c.main args) (.call launcherPid 0) = some s' ∧ LauncherAt s' l' ∧
      s'.unreaped launcherPid = s.unreaped launcherPid := by
  obtain ⟨P, hp, hl⟩ := hl
  obtain ⟨s', hs, hs'⟩ := step_of_goes hp hl hg
  have hr : P.life.isReaped = false := by rw [hl]; rfl
  exact ⟨s', hs, ⟨_, by rw [hs']; exact lookup_live_self, rfl⟩, unreaped_live hp hr rfl hs'⟩

/-- Behind a first wait the launcher reads the clock, and can go on to compare the pids. -/
theorem launcher_waited (c : Program) (args : Args) {k start : Nat} {np r h t w : Int}
    (hl : LauncherAt s (.trial k np r (.waited h start t w))) :
    ∃ s', Reach (Sys.step (c.main args)) Free s s' ∧
      LauncherAt s' (.trial k np r (.compare h start t w s.clock)) ∧
      s'.unreaped launcherPid = s.unreaped launcherPid := by
  have hread : Goes s.clock 0 (c.main args (.trial k np r (.waited h start t w)))
      (.trial k np r (.tidy h start t w s.clock)) := by
    cases c <;> exact .now _
  obtain ⟨s₁, hs₁, hl₁, hu₁⟩ := launcher_goes hl hread
  have htidy : Goes s₁.clock 0 (c.main args (.trial k np r (.tidy h start t w s.clock)))
      (.trial k np r (.compare h start t w s.clock)) := by
    cases c <;> exact .throws _ rfl
  obtain ⟨s₂, hs₂, hl₂, hu₂⟩ := launcher_goes hl₁ htidy
  exact ⟨s₂, (Reach.tail .refl trivial hs₁).tail trivial hs₂, hl₂, hu₂.trans hu₁⟩

/-- What the launcher does when the first wait returned the value of the test program's variable. -/
theorem main_compare (c : Program) (args : Args) (k start finish : Nat) (np r h t : Int) :
    c.main args (.trial k np r (.compare h start t t finish)) =
      if args.fileValid then
        .print (.file (finish - start)) (.trial k np r (.coutTime h (finish - start)))
      else .skip (.trial k np r (.coutTime h (finish - start))) := by
  cases c <;> simp only [Program.main, main, interuptMain, sweep, runTrial, interuptRunTrial,
    trialTail, ne_eq, not_true_eq_false, if_false] <;> split <;> rfl

/-- What it does when the wait returned another pid. -/
theorem main_compare_of_ne (c : Program) (args : Args) {k start finish : Nat} {np r h t w : Int}
    (hne : w ≠ t) : c.main args (.trial k np r (.compare h start t w finish)) =
      .print (.waitError t w h) (.trial k np r .returned) := by
  cases c <;> simp only [Program.main, main, interuptMain, sweep, runTrial, interuptRunTrial,
    trialTail, if_pos hne, ne_eq, Call.map]

/-- After a wait that returned it, the launcher can go on to write the time to the standard
output. -/
theorem reach_coutTime (c : Program) (args : Args) {k start : Nat} {np r h t : Int}
    (hl : LauncherAt s (.trial k np r (.waited h start t t))) :
    ∃ s', Reach (Sys.step (c.main args)) Free s s' ∧
      LauncherAt s' (.trial k np r (.coutTime h (s.clock - start))) := by
  obtain ⟨s₁, hr₁, hl₁, -⟩ := launcher_waited c args hl
  have hrecord : Goes s₁.clock 0 (c.main args (.trial k np r (.compare h start t t s.clock)))
      (.trial k np r (.coutTime h (s.clock - start))) := by
    rw [main_compare]
    split
    · exact .print _ _
    · exact .skip _
  obtain ⟨s₂, hs₂, hl₂, -⟩ := launcher_goes hl₁ hrecord
  exact ⟨s₂, hr₁.tail trivial hs₂, hl₂⟩

/-- The launcher is at one control point. -/
theorem LauncherAt.unique {l l' : Point} (hl : LauncherAt s l) (hl' : LauncherAt s l') :
    l = l' := by
  obtain ⟨P, hP, hl⟩ := hl
  obtain ⟨P', hP', hl'⟩ := hl'
  cases hP.symm.trans hP'
  cases hl.symm.trans hl'
  rfl

/-! ## The invariant -/

/-- The launcher is in the table, and its variables hold what `At` says. -/
structure Inv (s : Procs) : Prop where
  present : (s.procs.lookup launcherPid).isSome
  holds : ∀ l, LauncherAt s l → At s l

/-- After the first `wait` has returned the test program's pid, `hackbench` still holds. -/
theorem AfterWait.held (ha : AfterWait s k h t t) : HoldsOr s k .hackbench h := by
  by_cases hh : t = h
  · exact .inl (ha.none (ha.ne hh)).1
  · exact ha.hackbench hh

/-- The parent's variables are not the `0` of a child. -/
theorem HoldsOr.ne_zero (hq : HoldsOr s k role 0) : False := by
  rcases hq with h | h
  · cases h
  · exact absurd h.pos (by decide)

theorem TrialAt.flow {p p' : TrialPoint} {n : Nat} (hf : TrialFlow n p p') (ha : TrialAt s k p) :
    TrialAt s k p' := by
  cases hf with
  | interuptPrepare | interuptStart | waitError | done => trivial
  | record => exact AfterWait.held ha
  | hackbenchChild => exact HoldsOr.ne_zero ha
  | interuptHackbenchChild => exact (Both.hackbench ha).ne_zero
  | testChild hp =>
    rcases hp with ⟨h, start, rfl⟩ | ⟨start, rfl⟩
    · exact (Both.testProg ha).ne_zero.elim
    · exact (HoldsOr.ne_zero ha).elim
  | execFailed => exact ha
  | _ => exact ha

theorem At.flow {l l' : Point} {n : Nat} (hf : Flow n l l') (ha : At s l) : At s l' := by
  cases hf with
  | begin | reps | done | pairs | rep => trivial
  | trial _ _ _ hf => rcases hf with rfl | rfl <;> trivial
  | run _ _ _ hp => exact TrialAt.flow hp ha

theorem At.forkFailed {l : Point} {n : Nat} {f : Int → Point} (hf : ForksAt l n role f)
    (ha : At s l) : At s (f (-1)) := by
  cases hf with
  | hackbench | interuptTestProg => exact .inl rfl
  | testProg => exact ⟨ha, .inl rfl, fun _ => rfl⟩
  | interuptHackbench => exact ⟨.inl rfl, ha, id⟩

/-- A pid that was not in the table is not held. -/
theorem HoldsOr.ne_of_fresh {ret : Int} (hq : HoldsOr s k role q) (h0 : 0 < ret)
    (hn : s.procs.lookup ret = none) : q ≠ ret := by
  rcases hq with rfl | hq
  · omega
  · rintro rfl
    obtain ⟨Q, hQ, -⟩ := hq.unreaped
    rw [hn] at hQ
    cases hQ

theorem At.forked (hs : s.step (c.main args) e = some s') {l : Point} {n : Nat}
    {f : Int → Point} {ret : Int} (hf : ForksAt l n role f) (ha : At s l) (h0 : 0 < ret)
    (hn : s.procs.lookup ret = none)
    (hc : s'.procs.lookup ret = some ⟨launcherPid, some l, s.clock, .code (f 0)⟩)
    (hu : s'.unreaped launcherPid = insert ret (s.unreaped launcherPid)) : At s' (f ret) := by
  have hnew : HoldsOr s' n role ret :=
    .inr ⟨h0, hu ▸ Set.mem_insert _ _, _, l, hc, rfl, rfl, hf.forks⟩
  have hkeep : ∀ {role' : Role} {q : Int}, HoldsOr s n role' q → HoldsOr s' n role' q :=
    fun hq => hq.step hs fun h => hu ▸ Set.mem_insert_of_mem _ h
  cases hf with
  | hackbench | interuptTestProg => exact hnew
  | testProg n np r h start =>
    have ha : HoldsOr s n .hackbench h := ha
    exact ⟨hkeep ha, hnew, fun he => absurd he.symm (ha.ne_of_fresh h0 hn)⟩
  | interuptHackbench n np r start t =>
    have ha : HoldsOr s n .testProg t := ha
    exact ⟨hnew, hkeep ha, fun he => absurd he (ha.ne_of_fresh h0 hn)⟩

/-- Nothing is held when there is no child. -/
theorem HoldsOr.of_empty (hq : HoldsOr s k role q) (hn : s.unreaped launcherPid = ∅) : q = -1 := by
  rcases hq with rfl | hq
  · rfl
  · have := hq.unreaped
    rw [hn] at this
    cases this

theorem At.noChild {l : Point} {f : Int → Point} (hw : WaitsAt l f) (ha : At s l)
    (hn : s.unreaped launcherPid = ∅) : At s (f (-1)) := by
  cases hw with
  | first n np r h start t =>
    have hb : Both s n h t := ha
    exact ⟨fun _ => ⟨hb.hackbench.of_empty hn, hb.testProg.of_empty hn⟩, fun _ => hb.hackbench,
      fun _ => hb.testProg, hb.ne⟩
  | second => trivial

theorem At.reaped (hs : s.step (c.main args) e = some s') {l : Point} {f : Int → Point}
    {ret : Int} (hw : WaitsAt l f) (ha : At s l) (hr : ret ≠ -1)
    (hu : s'.unreaped launcherPid = s.unreaped launcherPid \ {ret}) : At s' (f ret) := by
  have hkeep : ∀ {n : Nat} {role : Role} {q : Int}, ret ≠ q → HoldsOr s n role q →
      HoldsOr s' n role q := fun hne hq => hq.step hs fun h => hu ▸ ⟨h, hne.symm⟩
  cases hw with
  | first n np r h start t =>
    have hb : Both s n h t := ha
    exact ⟨fun h => absurd h hr, fun hne => hkeep hne hb.hackbench,
      fun hne => hkeep hne hb.testProg, hb.ne⟩
  | second => trivial

theorem inv_start : Inv start := by
  refine ⟨rfl, fun l hl => ?_⟩
  obtain ⟨P, hP, hl⟩ := hl
  cases hP
  cases hl
  trivial

/-- Every step keeps the invariant. -/
theorem inv_step (hi : Inv s) (hs : s.step (c.main args) e = some s') : Inv s' := by
  obtain ⟨P, hP⟩ := Option.isSome_iff_exists.1 hi.present
  obtain ⟨P', hP', -⟩ := step_before hs hP
  refine ⟨by rw [hP']; rfl, fun l' hl' => ?_⟩
  cases move_of_step hs hi.present hl' with
  | other _ hl hu => exact (hi.holds l' hl).step hs fun q hq => hu ▸ hq
  | goes _ hl hg hu => exact ((hi.holds _ hl).flow hg).step hs fun q hq => hu ▸ hq
  | forkFailed _ hl hf hl' hu =>
    subst hl'
    exact ((hi.holds _ hl).forkFailed hf).step hs fun q hq => hu ▸ hq
  | forked _ hl hf hl' h0 hn hc hu =>
    subst hl'
    exact (hi.holds _ hl).forked hs hf h0 hn hc hu
  | noChild _ hl hw hl' hn hu =>
    subst hl'
    exact ((hi.holds _ hl).noChild hw hn).step hs fun q hq => by rw [hn] at hq; cases hq
  | reaped _ hl hw hl' hr _ _ hu =>
    subst hl'
    exact (hi.holds _ hl).reaped hs hw hr hu

/-- In every run of a launcher, its variables hold what `At` says. -/
theorem reach_inv {C : Procs → Event → Prop}
    (h : Reach (Sys.step (c.main args)) C start s) : Inv s :=
  h.invariant inv_start fun _ _ _ hi _ hs => inv_step hi hs

/-! ## The launcher's children -/

/-- Where a forked child can be: in the branch of its fork, and in what follows it there. -/
inductive ChildTrialPoint : TrialPoint → Prop
  | hackbench : ChildTrialPoint (.hackbenchForked 0)
  | testProg (h : Int) (start : Nat) : ChildTrialPoint (.testProcForked h start 0)
  | interuptTestProg (start : Nat) : ChildTrialPoint (.interuptTestProcForked start 0)
  | interuptHackbench (start : Nat) (t : Int) : ChildTrialPoint (.interuptHackbenchForked start t 0)
  | execTestProg : ChildTrialPoint .execTestProg
  | exitFailed : ChildTrialPoint .exitFailed

/-- Where a forked child can be. -/
inductive ChildPoint : Point → Prop
  | trial (k : Nat) (np r : Int) {p : TrialPoint} (hp : ChildTrialPoint p) :
      ChildPoint (.trial k np r p)

/-- The processes other than the launcher are where a child can be. -/
def InChildren (s : Procs) : Prop :=
  ∀ p P l, p ≠ launcherPid → s.procs.lookup p = some P → P.life = .code l → ChildPoint l

theorem ChildTrialPoint.flow {n : Nat} {p p' : TrialPoint} (hp : ChildTrialPoint p)
    (hf : TrialFlow n p p') : ChildTrialPoint p' := by
  cases hf with
  | letting _ h0 | testProc _ _ _ h0 | interuptTestProc _ _ h0 | interuptHackbench _ _ _ h0 =>
    cases hp; exact absurd rfl h0
  | hackbenchChild | interuptHackbenchChild | execFailed => exact .exitFailed
  | testChild _ hp' =>
    rcases hp' with rfl | rfl
    · exact .execTestProg
    · exact .exitFailed
  | _ => cases hp

theorem ChildPoint.flow {n : Nat} {l l' : Point} (hl : ChildPoint l) (hf : Flow n l l') :
    ChildPoint l' := by
  cases hl with
  | trial k np r hp =>
    cases hf with
    | rep => cases hp
    | run _ _ _ hf => exact .trial k np r (hp.flow hf)

/-- A child does not fork. -/
theorem ChildPoint.not_fork {l : Point} {n : Nat} {f : Int → Point} (hl : ChildPoint l)
    (hf : ForksAt l n role f) : False := by
  cases hl with
  | trial _ _ _ hp => cases hf <;> cases hp

/-- A child does not wait. -/
theorem ChildPoint.not_wait {l : Point} {f : Int → Point} (hl : ChildPoint l)
    (hw : WaitsAt l f) : False := by
  cases hl with
  | trial _ _ _ hp => cases hw <;> cases hp

/-- A fork leaves the child where a child can be. -/
theorem ForksAt.child {l : Point} {n : Nat} {f : Int → Point} (hf : ForksAt l n role f) :
    ChildPoint (f 0) := by
  cases hf with
  | hackbench n np r => exact .trial n np r .hackbench
  | testProg n np r h start => exact .trial n np r (.testProg h start)
  | interuptTestProg n np r start => exact .trial n np r (.interuptTestProg start)
  | interuptHackbench n np r start t => exact .trial n np r (.interuptHackbench start t)

theorem inChildren_start : InChildren start := by
  intro p P l hp hP
  exact absurd (lookup_init hP).1 hp

/-- Every step leaves the children where a child can be. -/
theorem inChildren_step (h : InChildren s) (hs : s.step (c.main args) e = some s') :
    InChildren s' := by
  intro p P' l' hp hP' hl'
  cases step_arrives hs hP' hl' with
  | same _ hP => exact h p P' l' hp hP hl'
  | goes _ hP hl hg => exact (h p _ _ hp hP hl).flow (main_flow hg)
  | forkFailed _ hP hl hc | forked _ hP hl hc =>
    obtain ⟨n, role, hf⟩ := main_fork hc
    exact ((h p _ _ hp hP hl).not_fork hf).elim
  | noChild _ hP hl hc | reaped _ hP hl hc =>
    exact ((h p _ _ hp hP hl).not_wait (main_wait hc)).elim
  | born _ _ _ hc hl₀ =>
    obtain ⟨n, role, hf⟩ := main_fork hc
    exact hl₀ ▸ hf.child

/-- In every run, a child of a C++ launcher runs nothing but the branch of its fork. -/
theorem reach_inChildren {C : Procs → Event → Prop}
    (h : Reach (Sys.step (c.main args)) C start s) : InChildren s :=
  h.invariant inChildren_start fun _ _ _ hi _ hs => inChildren_step hi hs

/-- The pid variables of hackbench and of the test program at the first `wait(NULL)` of a
trial. -/
def Point.waitsFor? : Point → Option (Int × Int)
  | .trial _ _ _ (.wait h _ t) => some (h, t)
  | _ => none

/-- Where the launcher waits for these, it is at a first wait. -/
theorem launcherAt_wait (hv : (h, t) ∈ (s.point? launcherPid).bind Point.waitsFor?) :
    ∃ k np r start, LauncherAt s (.trial k np r (.wait h start t)) := by
  obtain ⟨l, hl, hlt⟩ := Option.bind_eq_some_iff.1 hv
  have hl : LauncherAt s l := point?_eq_some.1 hl
  cases l with
  | begin | pairs | reps | done => cases hlt
  | trial k np r p =>
    cases p with
    | wait h start t =>
      cases hlt
      exact ⟨k, np, r, start, hl⟩
    | _ => cases hlt

end

/-- A trial in which hackbench warms up for ten seconds, the test program runs for 8.3 ms, exits
before hackbench and is recorded, and hackbench is reaped after its SIGTERM. -/
def wholeTrial : List Event :=
  [.call 1 0, .call 1 0, .call 1 0, .call 1 2, .call 2 0, .call 1 0, .pass 10000000000, .call 1 0,
    .call 1 0, .call 1 0, .call 1 3, .call 1 0, .call 3 0, .call 3 0, .pass 8300000,
    .exit 3 (.exited 0), .call 1 3, .call 1 0, .call 1 0, .call 1 0, .call 1 0, .call 1 0, .term 2,
    .call 1 2, .call 1 0]

end Launcher
