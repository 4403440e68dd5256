import SchedulerComparison.Hackbench.WorkerTable
import SchedulerComparison.Launcher.Measurement
import SchedulerComparison.Launcher.Spelling
import SchedulerComparison.Launcher.Steady
import SchedulerComparison.Launcher.Sweep

/-!
# The hackbench of a trial gets what was asked for

The launchers hand hackbench its options as texts, which `process_options` of `hackbench.c` reads
back. `hackbench_started` follows a trial from the command line of the launcher to the global
variables of the hackbench that it starts: in every run, with any failures, a child of the launcher
runs the hackbench or the test program of its own trial, which is one of those asked for, and that
hackbench has the pairs of its trial and the core of the command line, and refuses them or goes on
with a table that is large enough. The launchers do not check what they are given.
-/

open Posix Posix.Sys Transition Getopt CxxString

namespace Launcher

/-! ## The command line of hackbench -/

/-- The global variables of the hackbench of a trial. -/
def trialGlobals (pairs core : Int) : Hackbench.Globals where
  datasize := 100000
  numGroups := (Int32.ofInt pairs).toUInt32
  coreToPin := Int32.ofInt core
  isInfinite := true

/-- A line that hackbench complains with. -/
def complaint (text : String) : List Char := "hackbench".toList ++ ": ".toList ++ text.toList

/-- What hackbench complains about. -/
def complaints (pairs core : Int) : List (List Char) :=
  (if pairs = 0 then [complaint "--groups|-g requires an integer > 0"] else []) ++
    if core < -1 then [complaint "--pin|-p requires an integer >= 0"] else []

/-- How hackbench reads the command line of a trial. -/
structure Understood (pairs core : Int) (argv : List (List Char)) : Prop where
  options : Hackbench.processOptions argv =
    if complaints pairs core = [] then .ok (trialGlobals pairs core)
    else .error (.errorExit (complaints pairs core))
  table : ∀ (g : Hackbench.Globals) (h : Hackbench.processOptions argv = .ok g),
    Hackbench.TableFits (g.options (Hackbench.processOptions_valid h)) ↔ 0 < pairs

section
variable {args : Args} {pairs core : Int}

theorem complaints_of_lt (h : core < -1) :
    complaints pairs core =
      complaints pairs (-1) ++ [complaint "--pin|-p requires an integer >= 0"] := by
  rw [complaints, if_pos h, complaints, if_neg (Int.lt_irrefl _), List.append_nil]

theorem complaints_of_le (h : -1 ≤ core) : complaints pairs core = complaints pairs (-1) := by
  rw [complaints, if_neg (Int.not_lt.2 h), complaints, if_neg (Int.lt_irrefl _)]

/-- hackbench takes a number of pairs that is not `0`, and a core from `-1` on. -/
theorem complaints_eq_nil_iff : complaints pairs core = [] ↔ pairs ≠ 0 ∧ -1 ≤ core := by
  rw [complaints, List.append_eq_nil_iff, ite_eq_right_iff, ite_eq_right_iff]
  simp only [List.cons_ne_nil, imp_false, Int.not_lt, ne_eq]

/-- The options before `-p`. -/
def optionsRead (pairs : Int) : List Found :=
  [.option 's' (some "100000".toList) none, .option 'g' (some (toString pairs).toList) none,
    .option 'i' none none]

/-- The option `-p`, where there is one. -/
def pinRead (core : Int) : List Found :=
  if core ≠ -1 then [.option 'p' (some (toString core).toList) none] else []

/-- What `getopt_long` finds. -/
theorem calls_hackbenchImage (args : Args) (pairs : Int) :
    calls Hackbench.optstring Hackbench.longopts
      ⟨[], ((hackbenchImage args pairs).argv.map String.toList).tail⟩ =
    optionsRead pairs ++ pinRead args.coreToPinTo := by
  have arg {c : Char} {v : List Char} {rest : List (List Char)} (hc : c ≠ '-')
      (h : shortOption Hackbench.optstring c = some true) :
      calls Hackbench.optstring Hackbench.longopts ⟨[], ['-', c] :: v :: rest⟩ =
        .option c (some v) none :: calls Hackbench.optstring Hackbench.longopts ⟨[], rest⟩ :=
    calls_option (getoptLong_short hc h)
  have flag {c : Char} {rest : List (List Char)} (hc : c ≠ '-')
      (h : shortOption Hackbench.optstring c = some false) :
      calls Hackbench.optstring Hackbench.longopts ⟨[], ['-', c] :: rest⟩ =
        .option c none none :: calls Hackbench.optstring Hackbench.longopts ⟨[], rest⟩ :=
    calls_option (getoptLong_flag hc h)
  have hargv : ((hackbenchImage args pairs).argv.map String.toList).tail =
      ['-', 's'] :: "100000".toList :: ['-', 'g'] :: (toString pairs).toList :: ['-', 'i'] ::
        if args.coreToPinTo ≠ -1 then [['-', 'p'], (toString args.coreToPinTo).toList]
        else [] := by
    unfold hackbenchImage
    split <;> rfl
  rw [hargv, arg (by decide) (by decide), arg (by decide) (by decide),
    flag (by decide) (by decide), pinRead]
  split
  · rw [arg (by decide) (by decide), calls_done getoptLong_nil]
    rfl
  · rw [calls_done getoptLong_nil]
    rfl

/-- An `int` is read as itself. -/
theorem ofInt_eq_zero_iff {i : Int} (h : IsInt i) : Int32.ofInt i = 0 ↔ i = 0 := by
  rw [← Int32.toInt_inj, Int32.toInt_ofInt_of_le h.1 h.2]
  rfl

theorem ofInt_neg_iff {i : Int} (h : IsInt i) : Int32.ofInt i < 0 ↔ i < 0 := by
  rw [Int32.lt_iff_toInt_lt, Int32.toInt_ofInt_of_le h.1 h.2]
  rfl

/-- What `process_options` has done after the options `-s`, `-g` and `-i`. -/
theorem foldlM_optionsRead (hpairs : IsInt pairs) (argv : List (List Char)) :
    (optionsRead pairs).foldlM (Hackbench.processOption ("hackbench".toList :: argv)) {} =
      .ok { globals := trialGlobals pairs (-1), error := decide (pairs = 0),
            stderr := complaints pairs (-1) } := by
  have hlt : 0 < ("hackbench".toList :: argv).length := Nat.succ_pos _
  have hs : Hackbench.processOption ("hackbench".toList :: argv) {}
      (.option 's' (some "100000".toList) none) =
        .ok { globals := { datasize := 100000 } } := by
    have hread : atoi "100000".toList = 100000 := by decide
    show Hackbench.processDatasize _ 0 _ _ = _
    rw [Hackbench.processDatasize, Hackbench.positiveOption_some hlt, hread]
    rfl
  have hg : Hackbench.processOption ("hackbench".toList :: argv)
      { globals := { datasize := 100000 } } (.option 'g' (some (toString pairs).toList) none) =
        .ok { globals := { trialGlobals pairs (-1) with isInfinite := false },
              error := decide (pairs = 0), stderr := complaints pairs (-1) } := by
    show Hackbench.processGroups _ 0 _ _ = _
    rw [Hackbench.processGroups, Hackbench.positiveOption_some hlt, atoi_toString hpairs]
    by_cases hzero : pairs = 0
    · subst hzero
      rfl
    · rw [if_neg fun h => hzero ((ofInt_eq_zero_iff hpairs).1 h), complaints, if_neg hzero,
        decide_eq_false hzero]
      rfl
  rw [optionsRead, List.foldlM_cons, hs]
  show List.foldlM _ _ _ = _
  rw [List.foldlM_cons, hg]
  rfl

/-- What `process_options` makes of the option `-p`. -/
theorem processPin_trial (hcore : IsInt core) (hpin : core ≠ -1) (argv : List (List Char)) :
    Hackbench.processOption ("hackbench".toList :: argv)
        { globals := trialGlobals pairs (-1), error := decide (complaints pairs (-1) ≠ []),
          stderr := complaints pairs (-1) } (.option 'p' (some (toString core).toList) none) =
      .ok { globals := trialGlobals pairs core, error := decide (complaints pairs core ≠ []),
            stderr := complaints pairs core } := by
  have hlt : 0 < ("hackbench".toList :: argv).length := Nat.succ_pos _
  show Hackbench.processPin _ 0 _ _ = _
  rw [Hackbench.processPin_some hlt, atoi_toString hcore]
  rcases lt_or_ge core 0 with hneg | hpos
  · have hlow : core < -1 := by omega
    have herror : complaints pairs core ≠ [] := fun h =>
      absurd hlow (Int.not_lt.2 (complaints_eq_nil_iff.1 h).2)
    rw [if_pos ((ofInt_neg_iff hcore).2 hneg), decide_eq_true herror, complaints_of_lt hlow]
    rfl
  · have hle : -1 ≤ core := le_trans (by decide) hpos
    rw [if_neg fun h => Int.not_lt.2 hpos ((ofInt_neg_iff hcore).1 h), complaints_of_le hle]
    rfl

/-- What `process_options` has done at the end. -/
theorem foldlM_hackbenchImage (hpairs : IsInt pairs) (hcore : IsInt core)
    (argv : List (List Char)) :
    (optionsRead pairs ++ pinRead core).foldlM
        (Hackbench.processOption ("hackbench".toList :: argv)) {} =
      .ok { globals := trialGlobals pairs core, error := decide (complaints pairs core ≠ []),
            stderr := complaints pairs core } := by
  have hzero : decide (pairs = 0) = decide (complaints pairs (-1) ≠ []) := by
    rw [decide_eq_decide, ne_eq, complaints_eq_nil_iff]
    omega
  rw [List.foldlM_append, foldlM_optionsRead hpairs, hzero]
  show List.foldlM _ _ _ = _
  unfold pinRead
  split
  · next hpin =>
    rw [List.foldlM_cons, processPin_trial hcore hpin]
    rfl
  · next hpin =>
    obtain rfl : core = -1 := Classical.not_not.1 hpin
    rfl

/-- The workers of the hackbench of a trial. -/
theorem total_trialGlobals (h : (trialGlobals pairs core).Valid) :
    ((trialGlobals pairs core).options h).total = 2 * (pairs % 2 ^ 32).toNat := by
  show 2 * 1 * (BitVec.ofInt 32 pairs).toNat = _
  rw [BitVec.toNat_ofInt]
  rfl

/-- hackbench reads the command line of a trial. -/
theorem understood (hpairs : IsInt pairs) (hcore : IsInt args.coreToPinTo) :
    Understood pairs args.coreToPinTo ((hackbenchImage args pairs).argv.map String.toList) := by
  have hoptions : Hackbench.processOptions ((hackbenchImage args pairs).argv.map String.toList) =
      if complaints pairs args.coreToPinTo = [] then .ok (trialGlobals pairs args.coreToPinTo)
      else .error (.errorExit (complaints pairs args.coreToPinTo)) := by
    rw [Hackbench.processOptions, calls_hackbenchImage]
    show (List.foldlM (Hackbench.processOption ("hackbench".toList :: _)) _ _ >>= _) = _
    rw [foldlM_hackbenchImage hpairs hcore]
    show (if decide (complaints pairs args.coreToPinTo ≠ []) = true then _ else _) = _
    by_cases h : complaints pairs args.coreToPinTo = []
    · rw [if_pos h, if_neg (by simp [h])]
      rfl
    · rw [if_neg h, if_pos (decide_eq_true h)]
  refine ⟨hoptions, fun g h => ?_⟩
  rw [hoptions] at h
  split at h
  · next hnone =>
    cases h
    have hne : pairs ≠ 0 := (complaints_eq_nil_iff.1 hnone).1
    rw [Hackbench.tableFits_iff, total_trialGlobals]
    obtain ⟨hlow, hhigh⟩ := hpairs
    omega
  · cases h

end

/-! ## The trials of the sweep -/

/-- Repetition `r` of the `i`-th number of pairs from the lower bound on is trial `i * reps + r`. -/
def Numbered (args : Args) (k : Nat) (np r : Int) : Prop :=
  ∃ i : Nat, np = args.groupsLowerBound + i * args.groupsStepSize ∧
    (k : Int) = i * max args.reps 0 + r

/-- Trial `k` is repetition `r` with `np` pairs of those that the arguments ask for. -/
structure TrialOf (args : Args) (k : Nat) (np r : Int) : Prop where
  isInt : IsInt np
  pairs : np ≤ args.groupsUpperBound
  rep : 0 ≤ r ∧ r < args.reps
  numbered : Numbered args k np r

/-- What holds of the variables of the sweep. -/
def CountedAt (args : Args) : Point → Prop
  | .begin => IsInt args.groupsLowerBound
  | .pairs k np => IsInt np ∧ Numbered args k np 0
  | .reps k np r =>
    IsInt np ∧ np ≤ args.groupsUpperBound ∧ (0 ≤ r ∧ r ≤ max args.reps 0) ∧ Numbered args k np r
  | .trial k np r _ => TrialOf args k np r
  | .done => True

section
variable {c : Program} {args : Args} {s s' : Procs} {k : Nat} {np r q ret : Int} {role : Role}
  {e : Event} {p : TrialPoint} {Q : Proc Point Image} {l l' : Point}

/-- Behind the last repetition the next number of pairs follows. -/
theorem Numbered.next (h : Numbered args k np (max args.reps 0)) :
    Numbered args k (np + args.groupsStepSize) 0 := by
  obtain ⟨i, rfl, hk⟩ := h
  refine ⟨i + 1, ?_, ?_⟩
  · push_cast
    ring
  · rw [hk]
    push_cast
    ring

/-- Behind a trial the next repetition follows. -/
theorem Numbered.succ (h : Numbered args k np r) : Numbered args (k + 1) np (r + 1) := by
  obtain ⟨i, hnp, hk⟩ := h
  refine ⟨i, hnp, ?_⟩
  push_cast
  omega

/-- A step of the sweep that neither forks nor waits counts on. -/
theorem CountedAt.goes {n : Nat} (h : CountedAt args l) (hg : Goes n ret (c.main args l) l') :
    CountedAt args l' := by
  cases l with
  | begin =>
    rw [main_begin] at hg
    cases hg
    exact ⟨h, 0, by simp, by simp⟩
  | pairs k np =>
    rw [main_pairs] at hg
    cases hg
    split
    · next hle => exact ⟨h.1, hle, ⟨le_refl 0, Int.le_max_right _ _⟩, h.2⟩
    · trivial
  | reps k np r =>
    obtain ⟨hint, hle, ⟨h0, hmax⟩, hk⟩ := h
    rcases lt_or_ge r args.reps with hlt | hge
    · rw [main_reps_of_lt c hlt] at hg
      cases hg
      exact ⟨hint, hle, ⟨h0, hlt⟩, hk⟩
    · obtain rfl : r = max args.reps 0 := by omega
      by_cases hnext : IsInt (np + args.groupsStepSize)
      · rw [main_reps_of_le c hge hnext] at hg
        cases hg
        exact ⟨hnext, hk.next⟩
      · cases c <;> simp only [Program.main, main, interuptMain, sweep, if_neg (Int.not_lt.2 hge),
          if_neg hnext] at hg <;> cases hg
  | trial k np r p =>
    cases main_flow hg with
    | rep =>
      obtain ⟨hint, hle, hrep, hk⟩ : TrialOf args k np r := h
      exact ⟨hint, hle, ⟨by omega, by omega⟩, hk.succ⟩
    | run => exact h
  | done =>
    rw [main_done] at hg
    cases hg

/-- A fork and a wait stay in their trial. -/
theorem CountedAt.fork {f : Int → Point} (h : CountedAt args l) (hc : c.main args l = .fork f)
    (pid : Int) : CountedAt args (f pid) := by
  obtain ⟨n, role, hf⟩ := main_fork hc
  cases hf <;> exact h

theorem CountedAt.wait {f : Int → Point} (h : CountedAt args l) (hc : c.main args l = .wait f)
    (pid : Int) : CountedAt args (f pid) := by
  cases main_wait hc <;> exact h

/-! ## The children -/

/-- What a child executes. -/
def Program.image (c : Program) (args : Args) (np : Int) : Role → Image
  | .hackbench => hackbenchImage args np
  | .testProg => c.testProg

/-- Where a child of a role can be when `execl` may fail. -/
def AtBranch (c : Program) (role : Role) (p : TrialPoint) : Prop :=
  Branch c role p ∨ p = .exitFailed

theorem AtBranch.childPoint (h : AtBranch c role p) : ChildPoint (.trial k np r p) := by
  rcases h with hb | rfl
  · exact .trial k np r hb.childTrialPoint
  · exact .trial k np r .exitFailed

/-- A child that goes on stays one of its role. -/
theorem AtBranch.goes {n : Nat} (h : AtBranch c role p)
    (hg : Goes n ret (c.main args (.trial k np r p)) l') :
    ∃ p', l' = .trial k np r p' ∧ AtBranch c role p' := by
  rcases h with hb | rfl
  · cases role with
    | hackbench =>
      rw [hb.execl] at hg
      cases hg
      exact ⟨_, rfl, .inr rfl⟩
    | testProg =>
      cases main_flow hg with
      | rep => cases hb
      | run _ _ _ hf => exact ⟨_, rfl, .inl (hb.flow hf)⟩
  · cases c <;> cases hg

/-- A child executes the program of its role. -/
theorem AtBranch.execl {img : Image} (h : AtBranch c role p)
    (hc : c.main args (.trial k np r p) = .execl img l') : img = c.image args np role := by
  rcases h with hb | rfl
  · cases hb with
    | hackbench | interuptHackbench => cases hc; rfl
    | execTestProg => cases c <;> cases hc <;> rfl
    | exitFailed => cases c <;> cases hc
    | testProg | interuptTestProg =>
      have hpin : (pinTestProc args).map (Point.trial k np r) = .execl img l' := hc
      unfold pinTestProc at hpin
      split at hpin <;> cases hpin
  · cases c <;> cases hc

/-- A child of the launcher is one of a trial that the arguments ask for, and executes nothing but
the program of its role. -/
structure Started (c : Program) (args : Args) (Q : Proc Point Image) (k : Nat) (np r : Int)
    (role : Role) : Prop where
  ppid : Q.ppid = launcherPid
  origin : ∃ o, Q.origin = some o ∧ o.forks = some (k, role)
  trial : TrialOf args k np r
  code : ∀ l, Q.life = .code l → ∃ p, l = .trial k np r p ∧ AtBranch c role p
  image : ∀ img, Q.life = .image img → img = c.image args np role

/-- The invariant of the runs, whatever fails. -/
structure AsAsked (c : Program) (args : Args) (s : Procs) : Prop where
  isSome : (s.procs.lookup launcherPid).isSome
  launcher : ∀ l, LauncherAt s l → CountedAt args l
  child : ∀ q Q, q ≠ launcherPid → s.procs.lookup q = some Q →
    ∃ k np r role, Started c args Q k np r role

theorem Started.step {Q' : Proc Point Image} (h : Started c args Q k np r role)
    (hs : s.step (c.main args) e = some s') (hQ : s.procs.lookup q = some Q)
    (hQ' : s'.procs.lookup q = some Q') (hb : Before Q Q') : Started c args Q' k np r role := by
  have same : ∀ {P : Proc Point Image}, s.procs.lookup q = some P → P = Q :=
    fun hP => Option.some.inj (hP.symm.trans hQ)
  refine ⟨hb.ppid.trans h.ppid, ?_, h.trial, fun l hl => ?_, fun img himg => ?_⟩
  · obtain ⟨o, ho, hforks⟩ := h.origin
    exact ⟨o, hb.origin.trans ho, hforks⟩
  · cases step_arrives hs hQ' hl with
    | same _ hP => exact h.code l (same hP ▸ hl)
    | goes _ hP hl₁ hg =>
      obtain ⟨p, rfl, hp⟩ := h.code _ (same hP ▸ hl₁)
      exact hp.goes hg
    | forkFailed _ hP hl₁ hc | forked _ hP hl₁ hc =>
      obtain ⟨p, rfl, hp⟩ := h.code _ (same hP ▸ hl₁)
      obtain ⟨n, role, hf⟩ := main_fork hc
      exact (hp.childPoint.not_fork hf).elim
    | noChild _ hP hl₁ hc | reaped _ hP hl₁ hc =>
      obtain ⟨p, rfl, hp⟩ := h.code _ (same hP ▸ hl₁)
      exact (hp.childPoint.not_wait (main_wait hc)).elim
    | born _ _ _ _ _ _ hn => cases hn.symm.trans hQ
  · rcases step_image hs hQ' himg with hP | ⟨P, l, l', hP, hl, hc⟩
    · exact h.image img (same hP ▸ himg)
    · obtain ⟨p, rfl, hp⟩ := h.code _ (same hP ▸ hl)
      exact hp.execl hc

/-- What is forked is a child of its role, in the trial of the launcher. -/
theorem started_of_fork {f : Int → Point} {n : Nat} (h : CountedAt args l)
    (hc : c.main args l = .fork f) :
    ∃ k np r role, Started c args ⟨launcherPid, some l, n, .code (f 0)⟩ k np r role := by
  have hcounted := h.fork hc 0
  obtain ⟨k, np, r, role, p, hforks, hp, hb⟩ := branch_of_fork hc
  rw [hp] at hcounted
  refine ⟨k, np, r, role, rfl, ⟨l, rfl, hforks⟩, hcounted, fun l' hl' => ?_, fun img himg => ?_⟩
  · cases hl'
    exact ⟨p, hp, .inl hb⟩
  · cases himg

theorem asAsked_start (c : Program) (hints : args.AreInts) : AsAsked c args start where
  isSome := rfl
  launcher l hl := by
    obtain ⟨P, hP, hcode⟩ := hl
    obtain ⟨-, rfl⟩ := lookup_init hP
    cases hcode
    exact hints.groupsLowerBound
  child q Q hq hQ := absurd (lookup_init hQ).1 hq

/-- Every step keeps the invariant. -/
theorem asAsked_step (h : AsAsked c args s) (hs : s.step (c.main args) e = some s') :
    AsAsked c args s' := by
  refine ⟨?_, fun l' hl' => ?_, fun q Q' hq hQ' => ?_⟩
  · obtain ⟨P, hP⟩ := Option.isSome_iff_exists.1 h.isSome
    obtain ⟨P', hP', -⟩ := step_before hs hP
    rw [hP']
    rfl
  · obtain ⟨P', hP', hcode'⟩ := hl'
    cases step_arrives hs hP' hcode' with
    | same _ hP => exact h.launcher l' ⟨P', hP, hcode'⟩
    | goes _ hP hl hg => exact (h.launcher _ ⟨_, hP, hl⟩).goes hg
    | forkFailed _ hP hl hc hl₁ => exact hl₁ ▸ (h.launcher _ ⟨_, hP, hl⟩).fork hc _
    | forked _ hP hl hc hl₁ => exact hl₁ ▸ (h.launcher _ ⟨_, hP, hl⟩).fork hc _
    | noChild _ hP hl hc hl₁ => exact hl₁ ▸ (h.launcher _ ⟨_, hP, hl⟩).wait hc _
    | reaped _ hP hl hc hl₁ => exact hl₁ ▸ (h.launcher _ ⟨_, hP, hl⟩).wait hc _
    | born _ _ _ _ _ _ hn =>
      have hsome := h.isSome
      rw [hn] at hsome
      cases hsome
  · cases hQ : s.procs.lookup q with
    | some Q =>
      obtain ⟨k, np, r, role, hst⟩ := h.child q Q hq hQ
      obtain ⟨Q'', hQ'', hb⟩ := step_before hs hQ
      cases hQ''.symm.trans hQ'
      exact ⟨k, np, r, role, hst.step hs hQ hQ' hb⟩
    | none =>
      obtain ⟨p, P, l, f, -, hP, hl, hc, -, rfl⟩ := step_born hs hQ hQ'
      have hp : p = launcherPid := by
        by_contra hne
        obtain ⟨k, np, r, role, hst⟩ := h.child p P hne hP
        obtain ⟨t, rfl, ht⟩ := hst.code l hl
        obtain ⟨n, role, hf⟩ := main_fork hc
        exact ht.childPoint.not_fork hf
      subst hp
      exact started_of_fork (h.launcher l ⟨P, hP, hl⟩) hc

/-- In every run of a launcher, each child belongs to a trial that the command line asks for and
executes the program of its role only, and the hackbench of a trial reads its pairs and its core. -/
theorem hackbench_started {argv : List (List Char)} (hargs : parseArgs argv = .ok args)
    (h : Reach (Sys.step (c.main args)) Free start s) (hq : q ≠ launcherPid)
    (hQ : s.procs.lookup q = some Q) :
    ∃ k np r role, Started c args Q k np r role ∧
      (role = .hackbench → ∀ img, Q.life = .image img → img.path = args.hackbenchAbsPath ∧
        Understood np args.coreToPinTo (img.argv.map String.toList)) := by
  have hints := parseArgs_areInts hargs
  have hasked : AsAsked c args s :=
    h.invariant (asAsked_start c hints) fun _ _ _ hi _ hs => asAsked_step hi hs
  obtain ⟨k, np, r, role, hst⟩ := hasked.child q Q hq hQ
  refine ⟨k, np, r, role, hst, fun hrole img himg => ?_⟩
  subst hrole
  rw [hst.image img himg]
  exact ⟨rfl, understood hst.trial.isInt hints.coreToPinTo⟩

end

theorem writes_toString {n : Int} (h : IsInt n) : Setting.Writes (toString n).toList n :=
  ⟨.ofInt n, (Integer.text_ofInt n).symm, Integer.value_ofInt n, h⟩

/-- `-g (12,36,12) --pin 11 -r 25 -f times`. -/
def pinnedPairs : List Pair :=
  [⟨.groupRange 12 36 12, writtenRange 12 36 12 0 0,
      rangeText_writtenRange (by decide) (by decide) (by decide) 0 0, false⟩,
    ⟨.pin 11, _, writes_toString (by decide), true⟩,
    ⟨.reps 25, _, writes_toString (by decide), false⟩, ⟨.file "times".toList, _, rfl, false⟩]

/-- What it asks for. -/
def pinnedArgs : Args where
  groupsLowerBound := 12
  groupsUpperBound := 36
  groupsStepSize := 12
  coreToPinTo := 11
  reps := 25
  fileName := "times"
  fileValid := true

/-- The launcher with this command line, up to the `execl` of its first hackbench. -/
theorem hackbench_started_pinned : ∃ s Q,
    exec (Sys.step (Program.main (.launcher gzipProg) pinnedArgs)) Free start
      [.call 1 0, .call 1 0, .call 1 0, .call 1 2, .call 2 0] = some s ∧
    s.procs.lookup 2 = some Q ∧ Q.life = .image (hackbenchImage pinnedArgs 12) ∧
    ∃ k np r role, Started (.launcher gzipProg) pinnedArgs Q k np r role ∧
      (role = .hackbench → ∀ img, Q.life = .image img → img.path = "hackbench" ∧
        Understood np 11 (img.argv.map String.toList)) := by
  have hlone : ¬ LoneLongPath pinnedPairs := id
  have hargs : parseArgs (commandLine "launcher".toList pinnedPairs) = .ok pinnedArgs :=
    parseArgs_commandLine "launcher".toList hlone
  exact ⟨_, _, rfl, rfl, rfl, hackbench_started (q := 2) hargs
    (.of_exec [.call 1 0, .call 1 0, .call 1 0, .call 1 2, .call 2 0] rfl) (by decide) rfl⟩

end Launcher
