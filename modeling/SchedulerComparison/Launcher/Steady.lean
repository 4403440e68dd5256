import SchedulerComparison.Launcher.Isolation
import SchedulerComparison.Launcher.Signals

/-!
# Runs in which hackbench runs until it is signalled

`run_trial` counts on three things that it does not check: that its forks succeed, that hackbench is
executed, and that hackbench, which is started with `-i`, does not end by itself. It also ends when
the test program's files cannot be looked at or removed. In the runs in which nothing of this
happens (`Steady`) the first `wait(NULL)` of each trial hands back the test program and the
second one hackbench, whatever the test programs do and in whatever order the processes go on. The
invariant is `Kept`: a hackbench that has ended was signalled, a signal goes to a hackbench only,
and the one of the current trial is not signalled before the launcher comes to its `kill`
(`TrialKept`).
-/

open Posix Posix.Sys Transition

namespace Launcher

/-- What a process was forked for. -/
def roleOf? (s : Procs) (q : Int) : Option Role :=
  ((s.procs.lookup q).bind Proc.origin).bind fun l => l.forks.map Prod.snd

/-- A call of `std::filesystem` is made at the control point. -/
def Point.throws : Point → Bool
  | .trial _ _ _ (.prepare _) | .trial _ _ _ .interuptPrepare
  | .trial _ _ _ (.tidy _ _ _ _ _) => true
  | _ => false

/-- No fork fails, no call throws, and hackbench is executed and does not end by itself. -/
def Steady (s : Procs) : Event → Prop
  | .call p ret =>
    ((s.point? p).bind Point.forks ≠ none ∨ roleOf? s p = some .hackbench → ret ≠ -1) ∧
      ((s.point? p).any Point.throws = true → ret = 0)
  | .exit p _ => roleOf? s p ≠ some .hackbench
  | .term _ | .pass _ => True

instance (s : Procs) : ∀ e, Decidable (Steady s e)
  | .call _ _ => inferInstanceAs (Decidable ((_ ∨ _ → _) ∧ (_ → _)))
  | .exit _ _ => inferInstanceAs (Decidable (_ ≠ _))
  | .term _ | .pass _ => .isTrue trivial

/-- Where a child of each role is before it has left the program. -/
inductive Branch : Program → Role → TrialPoint → Prop
  | hackbench (testProg : Image) : Branch (.launcher testProg) .hackbench (.hackbenchForked 0)
  | interuptHackbench (start : Nat) (t : Int) :
      Branch .interupt .hackbench (.interuptHackbenchForked start t 0)
  | testProg (testProg : Image) (h : Int) (start : Nat) :
      Branch (.launcher testProg) .testProg (.testProcForked h start 0)
  | interuptTestProg (start : Nat) :
      Branch .interupt .testProg (.interuptTestProcForked start 0)
  | execTestProg (c : Program) : Branch c .testProg .execTestProg
  | exitFailed (c : Program) : Branch c .testProg .exitFailed

/-- A signal was sent to the process. -/
def Signalled (s : Procs) (q : Int) : Prop := ∃ κ ∈ s.kills, κ.target = q

/-- A child of the launcher is where a child of its role can be, and a hackbench that has ended was
signalled. -/
structure Child (c : Program) (s : Procs) (q : Int) (Q : Proc Point Image) (role : Role) :
    Prop where
  ppid : Q.ppid = launcherPid
  origin : ∃ o k, Q.origin = some o ∧ o.forks = some (k, role)
  branch : ∀ l, Q.life = .code l → ∃ k np r p, l = .trial k np r p ∧ Branch c role p
  ended : role = .hackbench → Q.life.isRunning = true ∨ Signalled s q

/-- What holds in the current trial, as long as nothing fails. -/
def TrialKept (s : Procs) : TrialPoint → Prop
  | .hackbenchForked h | .warmUp h | .prepare h | .runProg h | .forkTestProc h _ | .coutTime h _
  | .kill h => h ≠ -1 ∧ ¬ Signalled s h
  | .testProcForked h _ t | .interuptHackbenchForked _ t h | .wait h _ t =>
    (h ≠ -1 ∧ ¬ Signalled s h) ∧ t ≠ -1
  | .interuptTestProcForked _ t | .interuptForkHackbench _ t => t ≠ -1
  | .waited h _ t w | .tidy h _ t w _ | .compare h _ t w _ => (h ≠ -1 ∧ ¬ Signalled s h) ∧ w = t
  | .waitHackbench h => h ≠ -1 ∧ ∃ H, s.procs.lookup h = some H ∧ s.Pending h H
  | .hackbenchWaited h w => w = h
  | _ => True

/-- What holds at a control point of the launcher. -/
def KeptAt (s : Procs) : Point → Prop
  | .trial _ _ _ p => TrialKept s p
  | _ => True

/-- The invariant. -/
structure Kept (c : Program) (s : Procs) : Prop where
  inv : Inv s
  positive : Positive s
  timed : Timed s
  owned : Owned s
  root : ∀ P, s.procs.lookup launcherPid = some P → P.ppid = 0
  child : ∀ q Q, q ≠ launcherPid → s.procs.lookup q = some Q → ∃ role, Child c s q Q role
  kills : ∀ κ ∈ s.kills, ∃ k, Forked s k .hackbench κ.target
  at_ : ∀ l, LauncherAt s l → KeptAt s l

section
variable {c : Program} {args : Args} {s s' : Procs} {k : Nat} {np r q h t ret : Int}
  {role : Role} {e : Event} {p : TrialPoint} {Q : Proc Point Image} {l l' : Point}

/-! ## The children -/

/-- Where a child of a role can be, a child can be. -/
theorem Branch.childTrialPoint (h : Branch c role p) : ChildTrialPoint p := by
  cases h with
  | hackbench => exact .hackbench
  | interuptHackbench start t => exact .interuptHackbench start t
  | testProg _ h start => exact .testProg h start
  | interuptTestProg start => exact .interuptTestProg start
  | execTestProg => exact .execTestProg
  | exitFailed => exact .exitFailed

/-- The child of a hackbench executes it. -/
theorem Branch.execl (h : Branch c .hackbench p) :
    c.main args (.trial k np r p) =
      .execl (hackbenchImage args np) (.trial k np r .exitFailed) := by
  cases h <;> rfl

/-- The child of a test program stays one. -/
theorem Branch.flow {n : Nat} {p' : TrialPoint} (h : Branch c .testProg p)
    (hf : TrialFlow n p p') : Branch c .testProg p' := by
  cases hf with
  | testProc _ _ _ h0 | interuptTestProc _ _ h0 => cases h; exact absurd rfl h0
  | testChild _ hp' =>
    rcases hp' with rfl | rfl
    · exact .execTestProg c
    · exact .exitFailed c
  | execFailed => exact .exitFailed c
  | _ => cases h

/-- A call of a child has a meaning. -/
theorem Branch.defined (h : Branch c role p) : c.main args (.trial k np r p) ≠ .undefined := by
  have hpin : ∀ {f : TrialPoint → Point}, (pinTestProc args).map f ≠ .undefined := by
    intro f
    unfold pinTestProc
    split <;> nofun
  cases h with
  | testProg | interuptTestProg => exact hpin
  | execTestProg | exitFailed => cases c <;> nofun
  | _ => nofun

/-- A fork leaves its child where a child of its role can be. -/
theorem branch_of_fork {f : Int → Point} (hc : c.main args l = .fork f) :
    ∃ k np r role p, l.forks = some (k, role) ∧ f 0 = .trial k np r p ∧ Branch c role p := by
  obtain ⟨k, role, hf⟩ := main_fork hc
  cases hf with
  | hackbench k np r =>
    cases c with
    | launcher testProg => exact ⟨k, np, r, _, _, rfl, rfl, .hackbench testProg⟩
    | interupt => cases hc
  | testProg k np r h start =>
    cases c with
    | launcher testProg => exact ⟨k, np, r, _, _, rfl, rfl, .testProg testProg h start⟩
    | interupt => cases hc
  | interuptTestProg k np r start =>
    cases c with
    | launcher => cases hc
    | interupt => exact ⟨k, np, r, _, _, rfl, rfl, .interuptTestProg start⟩
  | interuptHackbench k np r start t =>
    cases c with
    | launcher => cases hc
    | interupt => exact ⟨k, np, r, _, _, rfl, rfl, .interuptHackbench start t⟩

/-- A child neither forks nor waits. -/
theorem Branch.not_fork {f : Int → Point} (h : Branch c role p) :
    c.main args (.trial k np r p) ≠ .fork f := by
  intro hc
  obtain ⟨n, role', hf⟩ := main_fork hc
  exact (ChildPoint.trial k np r h.childTrialPoint).not_fork hf

theorem Branch.not_wait {f : Int → Point} (h : Branch c role p) :
    c.main args (.trial k np r p) ≠ .wait f := fun hc =>
  (ChildPoint.trial k np r h.childTrialPoint).not_wait (main_wait hc)

/-! ## Signals -/

theorem Signalled.mono {kills : List Kill} (hk : s'.kills = s.kills ++ kills)
    (h : Signalled s q) : Signalled s' q := by
  obtain ⟨κ, hκ, ht⟩ := h
  exact ⟨κ, hk ▸ List.mem_append_left kills hκ, ht⟩

/-- A signal goes to the pid that it names. -/
theorem Kept.target_eq (hk : Kept c s) {κ : Kill} (hκ : κ ∈ s.kills) (hh : κ.hits q) :
    κ.target = q := by
  obtain ⟨k, Q, o, hQ, -⟩ := hk.kills κ hκ
  have hpos := hk.positive _ _ hQ
  rcases hh with h | h | ⟨h, -⟩
  · exact h
  · omega
  · omega

/-- The launcher is not a child of its own. -/
theorem Kept.ne_launcher (hk : Kept c s) (hQ : s.procs.lookup q = some Q)
    (hppid : Q.ppid = launcherPid) : q ≠ launcherPid := by
  rintro rfl
  have h0 : (0 : Int) = launcherPid := (hk.root Q hQ).symm.trans hppid
  exact absurd h0 (by decide)

/-- What a step adds to the signals: nothing, or the one to the hackbench of the current trial. -/
theorem Kept.step_kills (hk : Kept c s) (hs : s.step (c.main args) e = some s') :
    s'.kills = s.kills ∨ ∃ k np r h, (∃ ret, e = .call launcherPid ret) ∧
      LauncherAt s (.trial k np r (.kill h)) ∧
      s'.kills = s.kills ++ [⟨launcherPid, h, s.clock⟩] := by
  rcases Sys.step_kills hs with hsame | ⟨p, ret, P, l, target, l', rfl, hP, hl, hc, hnew⟩
  · exact .inl hsame
  · obtain ⟨k, np, r, rfl⟩ := main_kill hc
    obtain rfl : p = launcherPid := by
      by_contra hne
      obtain ⟨role, hchild⟩ := hk.child p P hne hP
      obtain ⟨_, _, _, _, heq, hb⟩ := hchild.branch _ hl
      cases heq
      cases hb
    exact .inr ⟨k, np, r, target, ⟨ret, rfl⟩, ⟨P, hP, hl⟩, hnew⟩

theorem Kept.kills_append (hk : Kept c s) (hs : s.step (c.main args) e = some s') :
    ∃ kills, s'.kills = s.kills ++ kills := by
  rcases hk.step_kills hs with hsame | ⟨k, np, r, h, -, -, hnew⟩
  · exact ⟨[], by rw [hsame, List.append_nil]⟩
  · exact ⟨_, hnew⟩

/-- At its `kill` the launcher signals the hackbench of its trial. -/
theorem kill_sends (hs : s.step (c.main args) (.call launcherPid ret) = some s')
    (hl : LauncherAt s (.trial k np r (.kill h))) :
    s'.kills = s.kills ++ [⟨launcherPid, h, s.clock⟩] := by
  obtain ⟨P, l, s₁, hP, hl₁, hc, rfl⟩ := step_call hs
  cases LauncherAt.unique hl ⟨P, hP, hl₁⟩
  have hkill : c.main args (.trial k np r (.kill h)) =
      .kill h (.trial k np r (.waitHackbench h)) := by
    cases c <;> rfl
  rw [hkill] at hc
  cases hc
  rfl

/-- The pid that the launcher holds for the hackbench of its trial is that of a child. -/
theorem Kept.holds_of_kill (hk : Kept c s) (hl : LauncherAt s (.trial k np r (.kill h))) :
    Holds s k .hackbench h :=
  Or.resolve_left (hk.inv.holds _ hl) (hk.at_ _ hl).1

/-- What a process was forked for is known. -/
theorem Forked.roleOf? (hf : Forked s k role q) : roleOf? s q = some role := by
  obtain ⟨Q, o, hQ, -, ho, hforks⟩ := hf
  simp only [Launcher.roleOf?, hQ, ho, hforks, Option.bind_some, Option.map_some]

/-! ## What a step keeps of a child -/

theorem Child.roleOf? (hQ : s.procs.lookup q = some Q) (h : Child c s q Q role) :
    roleOf? s q = some role := by
  obtain ⟨o, k, ho, hforks⟩ := h.origin
  exact Forked.roleOf? ⟨Q, o, hQ, h.ppid, ho, hforks⟩

/-- A running hackbench goes on, or it was signalled. -/
theorem Child.ended_step {Q' : Proc Point Image} (hk : Kept c s) (hC : Steady s e)
    (hs : s.step (c.main args) e = some s') (hQ : s.procs.lookup q = some Q)
    (hQ' : s'.procs.lookup q = some Q') (h : Child c s q Q .hackbench)
    (hrun : Q.life.isRunning = true) : Q'.life.isRunning = true ∨ Signalled s q := by
  by_cases he : e.pid = q
  · subst he
    have hrole : Launcher.roleOf? s e.pid = some .hackbench := h.roleOf? hQ
    cases e with
    | call p ret =>
      obtain ⟨P, l, s₁, hP, hl, hcall, rfl⟩ := step_call hs
      obtain rfl : P = Q := Option.some.inj (hP.symm.trans hQ)
      obtain ⟨k, np, r, p, rfl, hb⟩ := h.branch l hl
      rw [hb.execl] at hcall
      -- in a steady run the `execl` does not return
      rcases call_execl hcall with ⟨-, rfl⟩ | ⟨rfl, -⟩
      · cases hQ'.symm.trans lookup_live_self
        exact .inl rfl
      · exact absurd rfl (hC.1 (.inr hrole))
    | exit p st => exact absurd hrole hC
    | term p =>
      refine .inr ?_
      simp only [step] at hs
      split at hs
      · split at hs
        · next hpend =>
          obtain ⟨κ, hκ, hh, -⟩ := hpend.2
          exact ⟨κ, hκ, hk.target_eq hκ hh⟩
        · cases hs
      · cases hs
    | pass time =>
      rcases step_end hs (by rintro _ _ ⟨⟩) with ⟨_, _, _, hm, -⟩ | ⟨_, -, -, rfl⟩
      · cases hm
      · cases hQ.symm.trans hQ'
        exact .inl hrun
  · refine .inl (isRunning_of_exitedAt? ?_)
    cases hx : Q'.life.exitedAt? with
    | none => rfl
    | some t =>
      cases (exitedAt?_of_running hrun).symm.trans (step_exitedAt_of_ne hs he hQ hQ' hx)

/-- Where a child goes is where a child of its role can be. -/
theorem Child.branch_step {Q' : Proc Point Image} (hC : Steady s e)
    (hs : s.step (c.main args) e = some s') (hQ : s.procs.lookup q = some Q)
    (hQ' : s'.procs.lookup q = some Q') (h : Child c s q Q role) (hl : Q'.life = .code l) :
    ∃ k np r p, l = .trial k np r p ∧ Branch c role p := by
  cases step_arrives hs hQ' hl with
  | same _ hQ₁ =>
    obtain rfl : Q' = Q := Option.some.inj (hQ₁.symm.trans hQ)
    exact h.branch l hl
  | @goes P l₁ ret he hP hl₁ hg =>
    subst he
    obtain rfl : P = Q := Option.some.inj (hP.symm.trans hQ)
    obtain ⟨k, np, r, p, rfl, hb⟩ := h.branch l₁ hl₁
    cases role with
    | hackbench =>
      rw [hb.execl] at hg
      cases hg with
      | execl _ _ hret => exact absurd hret (hC.1 (.inr (h.roleOf? hQ)))
    | testProg =>
      cases main_flow hg with
      | rep => cases hb
      | run _ _ _ hf => exact ⟨k, np, r, _, rfl, hb.flow hf⟩
  | forkFailed _ hP hl₁ hc | forked _ hP hl₁ hc =>
    obtain rfl := Option.some.inj (hP.symm.trans hQ)
    obtain ⟨k, np, r, p, rfl, hb⟩ := h.branch _ hl₁
    exact absurd hc hb.not_fork
  | noChild _ hP hl₁ hc | reaped _ hP hl₁ hc =>
    obtain rfl := Option.some.inj (hP.symm.trans hQ)
    obtain ⟨k, np, r, p, rfl, hb⟩ := h.branch _ hl₁
    exact absurd hc hb.not_wait
  | born _ _ _ _ _ _ hn => cases hn.symm.trans hQ

theorem Child.step {Q' : Proc Point Image} (hk : Kept c s) (hC : Steady s e)
    (hs : s.step (c.main args) e = some s') (hQ : s.procs.lookup q = some Q)
    (hQ' : s'.procs.lookup q = some Q') (hb : Before Q Q') (h : Child c s q Q role) :
    Child c s' q Q' role := by
  obtain ⟨kills, hkills⟩ := hk.kills_append hs
  refine ⟨hb.ppid.trans h.ppid, ?_, fun l hl => h.branch_step hC hs hQ hQ' hl, fun hrole => ?_⟩
  · obtain ⟨o, k, ho, hforks⟩ := h.origin
    exact ⟨o, k, hb.origin.trans ho, hforks⟩
  · subst hrole
    rcases h.ended rfl with hrun | hsig
    · exact (h.ended_step hk hC hs hQ hQ' hrun).imp_right fun hsig => hsig.mono hkills
    · exact .inr (hsig.mono hkills)

/-- Every step leaves the children where they can be. -/
theorem Kept.child_step (hk : Kept c s) (hC : Steady s e) (hs : s.step (c.main args) e = some s')
    {Q' : Proc Point Image} (hq : q ≠ launcherPid) (hQ' : s'.procs.lookup q = some Q') :
    ∃ role, Child c s' q Q' role := by
  cases hQ : s.procs.lookup q with
  | some Q =>
    obtain ⟨role, h⟩ := hk.child q Q hq hQ
    obtain ⟨Q'', hQ'', hb⟩ := step_before hs hQ
    cases hQ'.symm.trans hQ''
    exact ⟨role, h.step hk hC hs hQ hQ' hb⟩
  | none =>
    obtain ⟨p, P, l, f, rfl, hP, hl, hc, -, rfl⟩ := step_born hs hQ hQ'
    obtain ⟨k, np, r, role, p₀, hforks, h0, hb⟩ := branch_of_fork hc
    obtain rfl : p = launcherPid := by
      by_contra hne
      obtain ⟨role', hchild⟩ := hk.child p P hne hP
      obtain ⟨_, _, _, _, rfl, hb'⟩ := hchild.branch l hl
      exact hb'.not_fork hc
    refine ⟨role, rfl, ⟨l, k, rfl, hforks⟩, fun l' hl' => ?_, fun _ => .inl rfl⟩
    cases hl'
    exact ⟨k, np, r, p₀, h0, hb⟩

/-! ## The current trial -/

/-- Without a new signal, an event keeps what holds in the trial. -/
theorem KeptAt.step (hs : s.step (c.main args) e = some s') (hkills : s'.kills = s.kills)
    (h : KeptAt s l) : KeptAt s' l := by
  have hsig : ∀ q, Signalled s' q ↔ Signalled s q := fun q => by rw [Signalled, Signalled, hkills]
  cases l with
  | begin | pairs | reps | done => trivial
  | trial k np r p =>
    cases p with
    | waitHackbench h₀ =>
      obtain ⟨hneg, H, hH, κ, hκ, hhits, hlt⟩ := h
      obtain ⟨H', hH', hb⟩ := step_before hs hH
      exact ⟨hneg, H', hH', κ, hkills ▸ hκ, hhits, hb.forkedAt ▸ hlt⟩
    | hackbenchForked | warmUp | prepare | runProg | forkTestProc | coutTime | kill =>
      exact ⟨h.1, (hsig _).not.2 h.2⟩
    | testProcForked | interuptHackbenchForked | wait | waited | tidy | compare =>
      exact ⟨⟨h.1.1, (hsig _).not.2 h.1.2⟩, h.2⟩
    | interuptTestProcForked | interuptForkHackbench | hackbenchWaited => exact h
    | _ => trivial

/-- A step of `run_trial` that neither forks, waits nor kills keeps it. -/
theorem TrialKept.flow {n : Nat} {p' : TrialPoint} (hf : TrialFlow n p p')
    (hp : ∀ h, p ≠ .kill h) (h : TrialKept s p) : TrialKept s p' := by
  cases hf with
  | kill h₀ => exact absurd rfl (hp h₀)
  | record => exact h.1
  | testChild _ hp' => rcases hp' with rfl | rfl <;> trivial
  | interuptPrepare | interuptStart | waitError | done | hackbenchChild | interuptHackbenchChild
  | execFailed => trivial
  | _ => exact h

/-- After the `kill` a signal to hackbench is pending. -/
theorem Kept.pending (hk : Kept c s) (hs : s.step (c.main args) e = some s')
    (hl : LauncherAt s (.trial k np r (.kill h)))
    (hkills : s'.kills = s.kills ++ [⟨launcherPid, h, s.clock⟩]) :
    TrialKept s' (.waitHackbench h) := by
  obtain ⟨H, hH, -⟩ := (hk.holds_of_kill hl).unreaped
  obtain ⟨H', hH', hb⟩ := step_before hs hH
  refine ⟨(hk.at_ _ hl).1, H', hH', ⟨launcherPid, h, s.clock⟩, ?_, .inl rfl, ?_⟩
  · rw [hkills]
    exact List.mem_append_right _ (List.mem_singleton.2 rfl)
  · exact hb.forkedAt ▸ (hk.timed _ _ hH).forkedAt

/-- A pid that is new in the table was not signalled. -/
theorem Kept.not_signalled (hk : Kept c s) (hn : s.procs.lookup q = none) : ¬ Signalled s q := by
  rintro ⟨κ, hκ, rfl⟩
  obtain ⟨k, Q, o, hQ, -⟩ := hk.kills κ hκ
  cases hQ.symm.trans hn

/-- A fork that succeeds keeps what holds in the trial. -/
theorem Kept.at_forked (hk : Kept c s) {f : Int → Point} (hf : ForksAt l k role f)
    (hl : LauncherAt s l) (h0 : 0 < ret) (hn : s.procs.lookup ret = none) :
    KeptAt s (f ret) := by
  have h := hk.at_ l hl
  have hneg : ret ≠ -1 := by omega
  cases hf with
  | hackbench => exact ⟨hneg, hk.not_signalled hn⟩
  | testProg => exact ⟨h, hneg⟩
  | interuptTestProg => exact hneg
  | interuptHackbench => exact ⟨⟨hneg, hk.not_signalled hn⟩, h⟩

/-- A hackbench that was not signalled has not exited. -/
theorem Kept.running (hk : Kept c s) (hh : Holds s k .hackbench h) (hsig : ¬ Signalled s h) :
    ∃ H, s.procs.lookup h = some H ∧ H.life.isRunning = true := by
  obtain ⟨H, o, hH, hppid, ho, hforks⟩ := hh.forked
  have hne : h ≠ launcherPid := hk.ne_launcher hH hppid
  obtain ⟨role, hchild⟩ := hk.child h H hne hH
  obtain ⟨o', k', ho', hforks'⟩ := hchild.origin
  cases ho.symm.trans ho'
  cases hforks.symm.trans hforks'
  exact ⟨H, hH, (hchild.ended rfl).resolve_right hsig⟩

/-- The first `wait(NULL)` of a trial hands back the test program. -/
theorem Kept.firstWait (hk : Kept c s) (hs : s.step (c.main args) e = some s') :
    FirstWait s e := by
  rintro ⟨h, t⟩ hv ht ret hret
  obtain rfl := Event.returns?_eq_some.1 hret
  obtain ⟨k, np, r, start, hl⟩ := launcherAt_wait hv
  have hboth : Both s k h t := hk.inv.holds _ hl
  obtain ⟨⟨hneg, hsig⟩, -⟩ : TrialKept s (.wait h start t) := hk.at_ _ hl
  obtain ⟨-, ⟨-, hnone⟩ | ⟨o, n, img, st, te, hz, -⟩⟩ := step_firstWait hl hs
  · exact absurd (hboth.testProg.of_empty hnone) ht
  · -- the hackbench of the trial is still running, so the child that exited is the other one
    have howned : ret = h ∨ ret = t := hk.owned _ hl ⟨_, hz, rfl, rfl⟩
    refine howned.resolve_left fun heq => ?_
    subst heq
    obtain ⟨H, hH, hrun⟩ := hk.running (hboth.hackbench.resolve_left hneg) hsig
    cases hz.symm.trans hH
    cases hrun

/-- Every step keeps what holds in the trial. -/
theorem Kept.at_step (hk : Kept c s) (hC : Steady s e) (hs : s.step (c.main args) e = some s')
    (hl' : LauncherAt s' l') : KeptAt s' l' := by
  have same : ∀ {l}, LauncherAt s l → (∀ k np r h, l ≠ .trial k np r (.kill h)) →
      s'.kills = s.kills := fun hl hne => (hk.step_kills hs).resolve_right
    fun ⟨k, np, r, h, _, hat, _⟩ => hne k np r h (hl.unique hat)
  cases move_of_step hs hk.inv.present hl' with
  | other he hl _ =>
    exact (hk.at_ l' hl).step hs ((hk.step_kills hs).resolve_right
      fun ⟨_, _, _, _, ⟨ret, hcall⟩, _⟩ => he ret hcall)
  | @goes l ret he hl hg _ =>
    cases hg with
    | begin | reps | done | pairs | rep => trivial
    | trial _ _ _ hf => rcases hf with rfl | rfl <;> trivial
    | @run k np r p p' hp =>
      by_cases hkill : ∃ h, p = .kill h
      · obtain ⟨h, rfl⟩ := hkill
        cases hp with
        | kill =>
          subst he
          exact hk.pending hs hl (kill_sends hs hl)
        | testChild hp => rcases hp with ⟨_, _, hp⟩ | ⟨_, hp⟩ <;> cases hp
      · have hflow : KeptAt s (.trial k np r p') :=
          TrialKept.flow hp (fun h heq => hkill ⟨h, heq⟩) (hk.at_ _ hl)
        exact hflow.step hs (same hl fun _ _ _ h heq => hkill ⟨h, by cases heq; rfl⟩)
  | forkFailed he hl hf hl' _ =>
    subst he
    refine absurd rfl (hC.1 (.inl ?_))
    rw [point?_eq_some.2 hl, Option.bind_some, hf.forks]
    nofun
  | forked _ hl hf hl' h0 hn _ _ =>
    subst hl'
    exact (hk.at_forked hf hl h0 hn).step hs (same hl fun _ _ _ _ heq => by subst heq; cases hf)
  | noChild _ hl hw hl' hnone _ =>
    subst hl'
    cases hw with
    | first k np r h start t =>
      exact absurd ((Both.testProg (hk.inv.holds _ hl)).of_empty hnone) (hk.at_ _ hl).2
    | second k np r h =>
      exact absurd (HoldsOr.of_empty (hk.inv.holds _ hl) hnone) (hk.at_ _ hl).1
  | @reaped l f ret _ _ _ _ _ he hl hw hl' _ hz _ _ =>
    subst he hl'
    have hkills := same hl fun _ _ _ _ heq => by subst heq; cases hw
    refine KeptAt.step hs hkills ?_
    cases hw with
    | first k np r h start t =>
      have hkept : TrialKept s (.wait h start t) := hk.at_ _ hl
      refine ⟨hkept.1, hk.firstWait hs (h, t) ?_ hkept.2 ret rfl⟩
      rw [point?_eq_some.2 hl]
      rfl
    | second k np r h => exact hk.owned _ hl ⟨_, hz, rfl, rfl⟩

/-! ## The invariant -/

/-- Every step keeps the signals those to a hackbench. -/
theorem Kept.kills_step (hk : Kept c s) (hs : s.step (c.main args) e = some s') :
    ∀ κ ∈ s'.kills, ∃ k, Forked s' k .hackbench κ.target := by
  have old : ∀ κ ∈ s.kills, ∃ k, Forked s' k .hackbench κ.target := fun κ hκ =>
    (hk.kills κ hκ).imp fun _ hf => hf.step hs
  rcases hk.step_kills hs with hsame | ⟨k, np, r, h, -, hl, hnew⟩
  · exact hsame ▸ old
  · intro κ hκ
    rw [hnew] at hκ
    rcases List.mem_append.1 hκ with hκ | hκ
    · exact old κ hκ
    · obtain rfl := List.mem_singleton.1 hκ
      exact ⟨k, (hk.holds_of_kill hl).forked.step hs⟩

theorem kept_start (c : Program) : Kept c start where
  inv := inv_start
  positive := positive_init (by decide)
  timed := timed_init
  owned := owned_start
  root P hP := by
    rw [(lookup_init hP).2]
  child q Q hq hQ := absurd (lookup_init hQ).1 hq
  kills _ hκ := absurd hκ List.not_mem_nil
  at_ := by
    rintro l ⟨P, hP, hl⟩
    rw [(lookup_init hP).2] at hl
    cases hl
    trivial

/-- Every step of a steady run keeps the invariant. -/
theorem kept_step (hk : Kept c s) (hC : Steady s e) (hs : s.step (c.main args) e = some s') :
    Kept c s' where
  inv := inv_step hk.inv hs
  positive := step_positive hs hk.positive
  timed := step_timed hs hk.timed
  owned := owned_step hk.inv hk.positive hk.owned (hk.firstWait hs) hs
  root P' hP' := by
    obtain ⟨P, hP⟩ := Option.isSome_iff_exists.1 hk.inv.present
    obtain ⟨P'', hP'', hb⟩ := step_before hs hP
    cases hP'.symm.trans hP''
    exact hb.ppid.trans (hk.root P hP)
  child _ _ hq hQ' := hk.child_step hC hs hq hQ'
  kills := hk.kills_step hs
  at_ _ hl' := hk.at_step hC hs hl'

/-! ## Progress -/

/-- A child that was not waited for has exited or can go on, and a hackbench that runs after its
SIGTERM can end. -/
theorem Kept.child_goes (hk : Kept c s) (hh : Holds s k role q)
    (hterm : role = .hackbench → ∃ H, s.procs.lookup q = some H ∧ s.Pending q H) :
    (∃ o n img st te, s.procs.lookup q = some ⟨launcherPid, o, n, .zombie img st te⟩) ∨
      ∃ e s', e.moves = true ∧ Steady s e ∧ s.step (c.main args) e = some s' := by
  obtain ⟨Q, hQ, hppid, hreap⟩ := hh.unreaped
  have hrole := hh.forked.roleOf?
  have hne : q ≠ launcherPid := hk.ne_launcher hQ hppid
  by_cases hrun : Q.life.isRunning = true
  · refine .inr ?_
    cases role with
    | hackbench =>
      obtain ⟨H, hH, hpend⟩ := hterm rfl
      obtain rfl : Q = H := Option.some.inj (hQ.symm.trans hH)
      exact ⟨.term q, _, rfl, trivial, by simp only [step, hQ, if_pos (And.intro hrun hpend)]; rfl⟩
    | testProg =>
      obtain ⟨pp, o, f, x⟩ := Q
      cases x with
      | code l =>
        obtain ⟨role, hchild⟩ := hk.child q _ hne hQ
        obtain ⟨k, np, r, p, rfl, hb⟩ := hchild.branch l rfl
        have hcall : ∃ s', s.step (c.main args) (.call q 0) = some s' :=
          step_of_call hQ rfl (fun _ => hb.not_fork) (fun _ => hb.not_wait) hb.defined
        obtain ⟨s', hs⟩ := hcall
        exact ⟨.call q 0, s', rfl, ⟨fun _ => by decide, fun _ => rfl⟩, hs⟩
      | image img =>
        refine ⟨.exit q (.exited 0), _, rfl, ?_, by simp only [step, hQ]; rfl⟩
        exact fun heq => by cases hrole.symm.trans heq
      | zombie | reaped => cases hrun
  · obtain ⟨pp, o, f, x⟩ := Q
    cases x with
    | code | image => exact absurd rfl hrun
    | zombie img st te => exact .inl ⟨o, f, img, st, te, hppid ▸ hQ⟩
    | reaped => cases hreap

/-- A launcher that forks or waits makes no call that throws. -/
theorem throws_of_fork {f : Int → Point} (hf : c.main args l = .fork f) : l.throws = false := by
  obtain ⟨n, role, hf⟩ := main_fork hf
  cases hf <;> rfl

theorem throws_of_wait {f : Int → Point} (hw : c.main args l = .wait f) : l.throws = false := by
  cases main_wait hw <;> rfl

/-- Where the launcher is at a step with a meaning, somebody can go on. -/
theorem Kept.goes_on (hk : Kept c s) (hl : LauncherAt s l) (hdef : c.main args l ≠ .undefined) :
    ∃ e s', e.moves = true ∧ Steady s e ∧ s.step (c.main args) e = some s' := by
  obtain ⟨P, hP, hcode⟩ := id hl
  -- a call that throws nothing may return anything
  have quiet : ∀ ret, l.throws = false → (s.point? launcherPid).any Point.throws = true →
      ret = (0 : Int) := by
    intro ret hquiet hthrows
    rw [point?_eq_some.2 hl, Option.any_some, hquiet] at hthrows
    cases hthrows
  by_cases hfork : ∃ f, c.main args l = .fork f
  · obtain ⟨f, hf⟩ := hfork
    obtain ⟨pid, s', h0, hs⟩ := step_of_fork hP hcode hf
    exact ⟨.call launcherPid pid, s', rfl, ⟨fun _ => by omega, quiet pid (throws_of_fork hf)⟩, hs⟩
  by_cases hwait : ∃ f, c.main args l = .wait f
  · obtain ⟨f, hw⟩ := hwait
    -- the child that is waited for has exited, or it goes on
    have reaps : ∀ {k role q}, q ≠ -1 → Holds s k role q →
        (role = .hackbench → ∃ H, s.procs.lookup q = some H ∧ s.Pending q H) →
        ∃ e s', e.moves = true ∧ Steady s e ∧ s.step (c.main args) e = some s' := by
      intro k role q hq hh hterm
      rcases hk.child_goes hh hterm with ⟨o, n, img, st, te, hz⟩ | hgo
      · obtain ⟨s', hs, -⟩ := step_of_wait hP hcode hw hq hz
        exact ⟨.call launcherPid q, s', rfl, ⟨fun _ => hq, quiet q (throws_of_wait hw)⟩, hs⟩
      · exact hgo
    cases main_wait hw with
    | first k np r h start t =>
      have ht : t ≠ -1 := (hk.at_ _ hl).2
      exact reaps ht ((Both.testProg (hk.inv.holds _ hl)).resolve_left ht) nofun
    | second k np r h =>
      obtain ⟨hneg, hpend⟩ : TrialKept s (.waitHackbench h) := hk.at_ _ hl
      exact reaps hneg (Or.resolve_left (hk.inv.holds _ hl) hneg) fun _ => hpend
  · obtain ⟨s', hs⟩ := step_of_call hP hcode (fun f hf => hfork ⟨f, hf⟩)
      (fun f hw => hwait ⟨f, hw⟩) hdef
    exact ⟨.call launcherPid 0, s', rfl, ⟨fun _ => by decide, fun _ => rfl⟩, hs⟩

end

end Launcher
