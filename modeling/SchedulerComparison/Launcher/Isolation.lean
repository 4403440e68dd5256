import SchedulerComparison.Launcher.Children

/-!
# Trial isolation

A trial is isolated when `run_trial` returns without a child. Both C++ launchers return early
when the first `wait(NULL)` does not hand back the test program (`launcher.cpp:44`,
`hackbench_interupt.cpp:78`), and then the test program is still running or unreaped:
`early_hackbench_leaks` has a run of each that does so. `isolated_exactly` shows that this is
the only way: when every first wait of a trial with a test program hands that test program back,
every return leaves no child.

The invariant is `Owned`: every unreaped child of the launcher is in one of the pid variables in
scope (`owned`).
-/

open Posix Posix.Sys Transition

namespace Launcher

/-- No child is left when `run_trial` returns, and at any other time a child that is left was
forked in the trial the launcher is in: none is alive in, or can be reaped by, a later one. -/
structure Isolated (s : Procs) : Prop where
  returned : ∀ k np r, LauncherAt s (.trial k np r .returned) → s.unreaped launcherPid = ∅
  current : ∀ l q, LauncherAt s l → q ∈ s.unreaped launcherPid →
    ∃ k role, l.trial? = some k ∧ Forked s k role q

/-- When the test program of the trial was forked, the trial's first `wait(NULL)` hands it
back. -/
def FirstWait (s : Procs) (e : Event) : Prop :=
  ∀ v ∈ (s.point? launcherPid).bind Point.waitsFor?, v.2 ≠ -1 →
    ∀ ret ∈ e.returns? launcherPid, ret = v.2

instance (s : Procs) (e : Event) : Decidable (FirstWait s e) :=
  inferInstanceAs (Decidable (∀ v ∈ _, _ → _))

/-- The pids that `run_trial` may still have to wait for at a control point. -/
def trialOwned : TrialPoint → Set Int
  | .hackbenchForked h | .warmUp h | .prepare h | .runProg h | .forkTestProc h _ | .coutTime h _
  | .kill h | .waitHackbench h => {h}
  | .interuptTestProcForked _ t | .interuptForkHackbench _ t => {t}
  | .testProcForked h _ t | .interuptHackbenchForked _ t h | .wait h _ t => {h, t}
  | .waited h _ t w | .tidy h _ t w _ | .compare h _ t w _ => {q | q = h ∧ w = t}
  | _ => ∅

/-- The pids that the launcher may still have to wait for at a control point. -/
def owned : Point → Set Int
  | .trial _ _ _ p => trialOwned p
  | _ => ∅

/-- Every unreaped child is in a variable of the launcher. -/
def Owned (s : Procs) : Prop := ∀ l, LauncherAt s l → s.unreaped launcherPid ⊆ owned l

section
variable {c : Program} {args : Args} {s s' : Procs} {e : Event} {U : Set Int} {n : Nat}

/-! ## What a step of the launcher keeps owned -/

theorem trialOwned_flow {k : Nat} {p p' : TrialPoint} (hf : TrialFlow n p p')
    (ha : TrialAt s k p) (hU : U ⊆ trialOwned p) : U ⊆ trialOwned p' := by
  cases hf with
  | waitError h start t w finish hw => exact fun q hq => absurd (hU hq).2 hw
  | record => exact fun q hq => (hU hq).1
  | hackbenchChild => exact (HoldsOr.ne_zero ha).elim
  | interuptHackbenchChild => exact (Both.hackbench ha).ne_zero.elim
  | testChild hp =>
    rcases hp with ⟨h, start, rfl⟩ | ⟨start, rfl⟩
    · exact (Both.testProg ha).ne_zero.elim
    · exact (HoldsOr.ne_zero ha).elim
  | execFailed => exact ha.elim
  | _ => exact hU

/-- A step that neither forks nor waits keeps what is unreaped owned. -/
theorem owned_flow {l l' : Point} (hf : Flow n l l') (ha : At s l) (hU : U ⊆ owned l) :
    U ⊆ owned l' := by
  cases hf with
  | begin | reps | done | pairs | rep => exact hU
  | trial _ _ _ hf => rcases hf with rfl | rfl <;> exact hU
  | run _ _ _ hp => exact trialOwned_flow hp ha hU

/-- A fork keeps what is unreaped owned: the child's pid is in the variable that is assigned. -/
theorem owned_fork {l : Point} {role : Role} {f : Int → Point} {ret : Int}
    (hf : ForksAt l n role f) (hU : U ⊆ owned l) : insert ret U ⊆ owned (f ret) := by
  refine Set.insert_subset ?_ fun q hq => ?_
  · cases hf with
    | hackbench | interuptTestProg => exact rfl
    | testProg => exact .inr rfl
    | interuptHackbench => exact .inl rfl
  · cases hf with
    | hackbench | interuptTestProg => exact absurd (hU hq) (Set.notMem_empty q)
    | testProg => exact .inl (hU hq)
    | interuptHackbench => exact .inr (hU hq)

/-- A failed fork keeps what is unreaped owned. -/
theorem owned_forkFailed {l : Point} {role : Role} {f : Int → Point}
    (hf : ForksAt l n role f) (hU : U ⊆ owned l) : U ⊆ owned (f (-1)) :=
  (Set.subset_insert _ _).trans (owned_fork hf hU)

/-- A wait keeps what is unreaped owned when, as the first wait of its trial, it reaps the test
program: only then does `run_trial` wait again. -/
theorem owned_wait {l : Point} {f : Int → Point} {ret : Int} (hw : WaitsAt l f)
    (hl : LauncherAt s l) (hC : FirstWait s (.call launcherPid ret)) (hneg : -1 ∉ U)
    (hret : ret ∈ U) (hU : U ⊆ owned l) : U \ {ret} ⊆ owned (f ret) := by
  rintro q ⟨hq, hne⟩
  cases hw with
  | first k np r h start t =>
    have hne : q ≠ ret := hne
    by_cases ht : t = -1
    · -- without a test program, hackbench is the only child there was
      have hqt : q ≠ t := by rintro rfl; exact hneg (ht ▸ hq)
      have hrt : ret ≠ t := by rintro rfl; exact hneg (ht ▸ hret)
      have hqh : q = h := (hU hq).resolve_right hqt
      have hrh : ret = h := (hU hret).resolve_right hrt
      exact absurd (hqh.trans hrh.symm) hne
    · have hrt : ret = t := by
        refine hC (h, t) ?_ ht ret rfl
        rw [point?_eq_some.2 hl]
        rfl
      exact ⟨(hU hq).resolve_right fun h => hne (h.trans hrt.symm), hrt⟩
  | second k np r h =>
    have hqh : q = h := hU hq
    have hrh : ret = h := hU hret
    exact absurd (hqh.trans hrh.symm) hne

/-! ## The invariant -/

theorem owned_start : Owned start := by
  rintro l - q ⟨Q, hq, hp, -⟩
  rw [(lookup_init hq).2] at hp
  have hp : (0 : Int) = launcherPid := hp
  exact absurd hp (by decide)

/-- Every step keeps the unreaped children owned when it meets `FirstWait`. -/
theorem owned_step (hi : Inv s) (hpos : Positive s) (ho : Owned s) (hC : FirstWait s e)
    (hs : s.step (c.main args) e = some s') : Owned s' := by
  intro l' hl'
  cases move_of_step hs hi.present hl' with
  | other _ hl hu => exact hu ▸ ho l' hl
  | goes _ hl hg hu => exact hu ▸ owned_flow hg (hi.holds _ hl) (ho _ hl)
  | forkFailed _ hl hf hl' hu =>
    subst hl'
    exact hu ▸ owned_forkFailed hf (ho _ hl)
  | forked _ hl hf hl' _ _ _ hu =>
    subst hl'
    exact hu ▸ owned_fork hf (ho _ hl)
  | noChild _ _ _ _ _ hu => exact hu ▸ Set.empty_subset _
  | reaped he hl hw hl' _ hc _ hu =>
    subst hl' he
    exact hu ▸ owned_wait hw hl hC hpos.not_unreaped ⟨_, hc, rfl, rfl⟩ (ho _ hl)

/-- In a run under `FirstWait`, what the invariants say holds. -/
theorem reach_owned (h : Reach (Sys.step (c.main args)) FirstWait start s) :
    Inv s ∧ Positive s ∧ Owned s :=
  h.invariant (I := fun s => Inv s ∧ Positive s ∧ Owned s)
    ⟨inv_start, positive_init (by decide), owned_start⟩
    fun _ _ _ hi hC hs =>
      ⟨inv_step hi.1 hs, step_positive hs hi.2.1, owned_step hi.1 hi.2.1 hi.2.2 hC hs⟩

/-- A child that a variable of the trial holds was forked in it. -/
theorem forked_of_owned {l : Point} {q : Int} (ha : At s l) (hpos : Positive s)
    (hu : q ∈ s.unreaped launcherPid) (hq : q ∈ owned l) :
    ∃ k role, l.trial? = some k ∧ Forked s k role q := by
  have held : ∀ {k : Nat} {role : Role} {p : Int}, q = p → HoldsOr s k role p →
      Forked s k role q := by
    rintro k role p rfl (rfl | hp)
    · exact absurd hu hpos.not_unreaped
    · exact hp.forked
  cases l with
  | begin | pairs | reps | done => exact absurd hq (Set.notMem_empty q)
  | trial k np r p =>
    suffices ∃ role, Forked s k role q from ⟨k, this.choose, rfl, this.choose_spec⟩
    cases p with
    | hackbenchForked | warmUp | prepare | runProg | forkTestProc | coutTime | kill
    | waitHackbench =>
      exact ⟨.hackbench, held hq ha⟩
    | interuptTestProcForked | interuptForkHackbench => exact ⟨.testProg, held hq ha⟩
    | testProcForked | interuptHackbenchForked | wait =>
      rcases hq with hq | hq
      · exact ⟨.hackbench, held hq (Both.hackbench ha)⟩
      · exact ⟨.testProg, held hq (Both.testProg ha)⟩
    | waited h start t w | tidy h start t w | compare h start t w =>
      obtain ⟨hq, rfl⟩ := hq
      exact ⟨.hackbench, held hq (AfterWait.held ha)⟩
    | _ => exact absurd hq (Set.notMem_empty q)

/-! ## Isolation -/

/-- In every run of either launcher in which the first wait of each trial that has a test program
hands it back, the trials are isolated. -/
theorem isolated_of_firstWait (h : Reach (Sys.step (c.main args)) FirstWait start s) :
    Isolated s := by
  obtain ⟨hi, hpos, ho⟩ := reach_owned h
  refine ⟨fun k np r hl => ?_, fun l q hl hq => ?_⟩
  · exact Set.subset_empty_iff.1 (ho _ hl)
  · exact forked_of_owned (hi.holds l hl) hpos hq (ho l hl hq)

/-- A return with a child left is not isolated. -/
theorem not_isolated {k : Nat} {np r q : Int} (hl : LauncherAt s (.trial k np r .returned))
    (hq : q ∈ s.unreaped launcherPid) : ¬ Isolated s := fun h => by
  rw [h.returned k np r hl] at hq
  exact hq

/-- After a first wait that returned another pid, `run_trial` can return with what it has not
reaped. -/
theorem leaks_of_waited {k : Nat} {np r h t w q : Int} {start : Nat} (hne : w ≠ t)
    (hl : LauncherAt s (.trial k np r (.waited h start t w))) (hq : q ∈ s.unreaped launcherPid) :
    ∃ s', Reach (Sys.step (c.main args)) Free s s' ∧ ¬ Isolated s' := by
  obtain ⟨s₁, hr₁, hl₁, hu₁⟩ := launcher_waited c args hl
  have hprint : Goes s₁.clock 0 (c.main args (.trial k np r (.compare h start t w s.clock)))
      (.trial k np r .returned) := by
    rw [main_compare_of_ne c args hne]
    exact .print _ _
  obtain ⟨s₂, hs₂, hl₂, hu₂⟩ := launcher_goes hl₁ hprint
  exact ⟨s₂, hr₁.tail trivial hs₂, not_isolated hl₂ (hu₂.trans hu₁ ▸ hq)⟩

/-- A first wait that does not hand back the trial's test program leaves it behind. -/
theorem leaks_of_not_firstWait (h : Reach (Sys.step (c.main args)) Free start s)
    (hC : ¬ FirstWait s e) (hs : s.step (c.main args) e = some s') :
    ∃ s'', Reach (Sys.step (c.main args)) Free s' s'' ∧ ¬ Isolated s'' := by
  simp only [FirstWait, not_forall] at hC
  obtain ⟨⟨h₀, t⟩, ht, hneg, ret, hret, hne⟩ := hC
  obtain ⟨k, np, r, start, hl⟩ := launcherAt_wait ht
  obtain rfl := Event.returns?_eq_some.1 hret
  have hheld : t ∈ s.unreaped launcherPid :=
    ((Both.testProg ((reach_inv h).holds _ hl)).resolve_left hneg).unreaped
  obtain ⟨hl', ⟨-, hn⟩ | ⟨_, _, _, _, _, -, -, hu⟩⟩ := step_firstWait hl hs
  · rw [hn] at hheld
    exact hheld.elim
  · exact leaks_of_waited (q := t) hne hl' (hu.ge ⟨hheld, fun h => hne h.symm⟩)

end

/-- Trials are isolated in the runs of either launcher whose first waits hand back the test
program, and any other first wait leads to a return that leaves it behind. -/
theorem isolated_exactly (c : Program) (args : Args) :
    (∀ s, Reach (Sys.step (c.main args)) FirstWait start s → Isolated s) ∧
    ∀ s e s', Reach (Sys.step (c.main args)) Free start s → ¬ FirstWait s e →
      s.step (c.main args) e = some s' →
      ∃ s'', Reach (Sys.step (c.main args)) Free s' s'' ∧ ¬ Isolated s'' :=
  ⟨fun _ h => isolated_of_firstWait h, fun _ _ _ h hC hs => leaks_of_not_firstWait h hC hs⟩

/-- The run of `wholeTrial` is one whose trials are isolated, and it returns from `run_trial`. -/
theorem isolated_wholeTrial : ∃ s,
    exec (Sys.step (Program.main (.launcher gzipProg) {})) FirstWait start wholeTrial =
      some s ∧ LauncherAt s (.trial 0 1 0 .returned) ∧ Isolated s :=
  ⟨_, rfl, ⟨_, rfl, rfl⟩, (isolated_exactly (.launcher gzipProg) {}).1 _ (.of_exec wholeTrial rfl)⟩

/-! ## The early return -/

/-- Hackbench exits before the test program, and the first wait reaps it. -/
def earlyHackbench : List Event :=
  [.call 1 0, .call 1 0, .call 1 0, .call 1 2, .call 1 0, .call 2 0, .call 1 0, .call 1 0,
    .call 1 0, .call 1 3, .call 1 0, .exit 2 (.exited 1), .call 1 2, .call 1 0, .call 1 0,
    .call 1 0]

/-- The same in `hackbench_interupt.cpp`, with a hackbench whose `execl` fails. -/
def interuptEarlyHackbench : List Event :=
  [.call 1 0, .call 1 0, .call 1 0, .call 1 0, .call 1 0, .call 1 2, .call 1 0, .call 1 3,
    .call 1 0, .call 3 (-1), .call 3 0, .call 1 3, .call 1 0, .call 1 0, .call 1 0]

/-- In both launchers, `run_trial` can return with the test program left. -/
theorem early_hackbench_leaks :
    (¬ ∀ testProg args s, Reach (Sys.step (Program.main (.launcher testProg) args)) Free
      start s → Isolated s) ∧
    ¬ ∀ args s, Reach (Sys.step (Program.main .interupt args)) Free start s →
      Isolated s := by
  refine ⟨fun h => ?_, fun h => ?_⟩
  · have hi := h gzipProg {} _ (.of_exec earlyHackbench rfl)
    exact not_isolated (q := 3) ⟨_, rfl, rfl⟩ ⟨_, rfl, rfl, rfl⟩ hi
  · have hi := h {} _ (.of_exec interuptEarlyHackbench rfl)
    exact not_isolated (q := 2) ⟨_, rfl, rfl⟩ ⟨_, rfl, rfl, rfl⟩ hi

end Launcher
