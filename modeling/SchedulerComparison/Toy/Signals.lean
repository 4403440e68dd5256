import SchedulerComparison.Launcher.Signals
import SchedulerComparison.Toy.RunTrial

/-!
# What the toy launcher signals

`toy/launcher.c` kills as the C++ launchers do, and so can every process of its tree whose
`execl` returned: such a child has `0` in `hackbench`, and `kill(0, SIGTERM)` signals the whole
process group, the launcher among it. `Holding` says, for every process of the tree, what its
variable `hackbench` holds; a child whose fib was not executed has its parent's `hackbench`, but
no child to wait for, so that its first wait does not return `fib`.

`kills_exactly` is about the three launchers.
-/

open Posix Posix.Sys Transition

namespace Toy

open Launcher (Image Role launcherPid KillsOwn)

/-- `q` is a child of `p` that it forked as hackbench in trial `k` and has not reaped. -/
structure Held (s : Procs) (p : Int) (k : Nat) (q : Int) : Prop where
  unreaped : q ∈ s.unreaped p
  forked : ∃ Q o, s.procs.lookup q = some Q ∧ Q.origin = some o ∧ o.forks = some (k, .hackbench)

/-- What `hackbench` holds at a control point of `run_trial`. A child whose `execl` of fib
returned has `0` in `fib`. -/
def TrialHeld (s : Procs) (p : Int) (k : Nat) : TrialPoint → Prop
  | .hackbenchForked h | .warmUp h | .forkFib h => 0 < h → Held s p k h
  | .fibForked h f | .wait h f => f ≠ 0 → 0 < h → Held s p k h ∧ h ≠ f
  | .waited h f w => w = f → 0 < h ∧ Held s p k h
  | .kill h => 0 < h ∧ Held s p k h
  | _ => True

/-- What `hackbench` holds at a control point. -/
def HeldAt (s : Procs) (p : Int) : Point → Prop
  | .trial k _ _ _ q => TrialHeld s p k q
  | _ => True

/-- What `hackbench` holds in every process of the tree. -/
def Holding (s : Procs) : Prop :=
  ∀ p P l, s.procs.lookup p = some P → P.life = .code l → HeldAt s p l

/-- The pid variables of hackbench and fib at the first `wait(NULL)` of a trial. -/
def Point.waitsFor? : Point → Option (Int × Int)
  | .trial _ _ _ _ (.wait h f) => some (h, f)
  | _ => none

/-- A first `wait(NULL)` that returns the value of the variable `fib` does so in a process that
has a hackbench. -/
def ArmedWait (s : Procs) (e : Event) : Prop :=
  ∀ v ∈ (s.point? e.pid).bind Point.waitsFor?, e.returns? e.pid = some v.2 → 0 < v.1

instance (s : Procs) (e : Event) : Decidable (ArmedWait s e) :=
  inferInstanceAs (Decidable (∀ v ∈ _, _ → _))

section
variable {args : Args} {s s' : Procs} {e : Event} {p q : Int} {k : Nat} {l l' : Point}

/-- A step that leaves `q` unreaped keeps it held. -/
theorem Held.step (hs : s.step (main args) e = some s') (hu : q ∈ s.unreaped p → q ∈ s'.unreaped p)
    (h : Held s p k q) : Held s' p k q := by
  obtain ⟨Q, o, hQ, ho, hk⟩ := h.forked
  obtain ⟨Q', hQ', hb⟩ := step_before hs hQ
  exact ⟨hu h.unreaped, Q', o, hQ', hb.origin.trans ho, hk⟩

/-- A step that reaps no child of `p` keeps what `hackbench` holds. -/
theorem HeldAt.step (hs : s.step (main args) e = some s') (hu : s.unreaped p ⊆ s'.unreaped p)
    (h : HeldAt s p l) : HeldAt s' p l := by
  cases l with
  | pairs | fibs | reps | done => trivial
  | trial k np f r q =>
    cases q with
    | hackbenchForked | warmUp | forkFib => exact fun h0 => (h h0).step hs (@hu _)
    | fibForked | wait => exact fun f0 h0 => ⟨(h f0 h0).1.step hs (@hu _), (h f0 h0).2⟩
    | waited => exact fun hw => ⟨(h hw).1, (h hw).2.step hs (@hu _)⟩
    | kill => exact ⟨h.1, h.2.step hs (@hu _)⟩
    | _ => trivial

theorem HeldAt.flow (hf : Flow args l l') (h : HeldAt s p l) : HeldAt s p l' := by
  cases hf with
  | run k np f r hp =>
    cases hp with
    | warmUp | forkFib | wait => exact h
    | toKill => exact h rfl
    | hackbenchFallsThrough => exact fun h0 => absurd h0 (lt_irrefl 0)
    | fibFallsThrough => exact fun f0 => absurd rfl f0
    | fibError | kill | done => trivial
  | _ => trivial

theorem HeldAt.forkFailed {role : Role} {g : Int → Point}
    (hg : ForksAt l k role g) (h : HeldAt s p l) : HeldAt s p (g (-1)) := by
  cases hg with
  | hackbench => exact fun h0 => absurd h0 (by decide)
  | fib k np f r h₀ =>
    intro _ h0
    refine ⟨h h0, ?_⟩
    omega

/-- Two forks of a process do not return one pid. -/
theorem HeldAt.forked (hs : s.step (main args) e = some s') {role : Role} {g : Int → Point}
    {ret : Int} (hg : ForksAt l k role g) (h : HeldAt s p l) (hn : s.procs.lookup ret = none)
    (hr : s'.procs.lookup ret = some ⟨p, some l, s.clock, .code (g 0)⟩)
    (hu : s'.unreaped p = insert ret (s.unreaped p)) : HeldAt s' p (g ret) := by
  cases hg with
  | hackbench k np f r =>
    exact fun _ => ⟨hu ▸ Set.mem_insert _ _, _, _, hr, rfl, rfl⟩
  | fib k np f r h₀ =>
    intro _ h0
    have hh : Held s p k h₀ := h h0
    refine ⟨hh.step hs fun hq => hu ▸ Set.mem_insert_of_mem _ hq, ?_⟩
    rintro rfl
    obtain ⟨Q, o, hQ, -⟩ := hh.forked
    cases hn.symm.trans hQ

/-- A first wait that returns `fib` reaps another child than hackbench. -/
theorem HeldAt.reaped {g : Int → Point} {ret : Int} (hs : s.step (main args) e = some s')
    (hg : WaitsAt l g) (h : HeldAt s p l) (hret : ret ≠ 0)
    (hC : ∀ v ∈ l.waitsFor?, ret = v.2 → 0 < v.1)
    (hu : s'.unreaped p = s.unreaped p \ {ret}) : HeldAt s' p (g ret) := by
  cases hg with
  | second => trivial
  | first k np f r h₀ fib =>
    rintro rfl
    have h0 : 0 < h₀ := hC (h₀, ret) rfl rfl
    obtain ⟨hh, hne⟩ := h hret h0
    exact ⟨h0, hh.step hs fun hq => hu ▸ ⟨hq, hne⟩⟩

/-- A first wait without a child does not return `fib` beside a hackbench. -/
theorem HeldAt.noChild {g : Int → Point} (hg : WaitsAt l g) (h : HeldAt s p l)
    (hC : ∀ v ∈ l.waitsFor?, -1 = v.2 → 0 < v.1) (hn : s.unreaped p = ∅) :
    HeldAt s' p (g (-1)) := by
  cases hg with
  | second => trivial
  | first k np f r h₀ fib =>
    rintro rfl
    have h0 : 0 < h₀ := hC (h₀, -1) rfl rfl
    have hh := (h (by decide) h0).1.unreaped
    rw [hn] at hh
    exact hh.elim

/-- The condition, at the control point of the process that makes the call. -/
theorem ArmedWait.at {P : Proc Point Image} {ret : Int} (hC : ArmedWait s (.call p ret))
    (hP : s.procs.lookup p = some P) (hl : P.life = .code l) :
    ∀ v ∈ l.waitsFor?, ret = v.2 → 0 < v.1 := by
  rintro v hv rfl
  have hpt : s.point? p = some l := point?_eq_some.2 ⟨P, hP, hl⟩
  exact hC v (Option.bind_eq_some_iff.2 ⟨l, hpt, hv⟩) (Event.returns?_eq_some.2 rfl)

theorem holding_step (hpos : Positive s) (h : Holding s) (hC : ArmedWait s e)
    (hs : s.step (main args) e = some s') : Holding s' := by
  intro p P' l' hP' hl'
  cases step_arrives hs hP' hl' with
  | same _ hP hu => exact (h p P' l' hP hl').step hs hu.ge
  | goes _ hP hl hg hu => exact ((h p _ _ hP hl).flow (main_flow hg)).step hs hu.ge
  | forkFailed _ hP hl hf hl'' hu =>
    obtain ⟨k, role, hf⟩ := main_fork hf
    exact hl'' ▸ ((h p _ _ hP hl).forkFailed hf).step hs hu.ge
  | forked _ hP hl hf hl'' _ hn hr hu =>
    obtain ⟨k, role, hf⟩ := main_fork hf
    exact hl'' ▸ (h p _ _ hP hl).forked hs hf hn hr hu
  | noChild he hP hl hw hl'' hn _ =>
    subst he
    exact hl'' ▸ (h p _ _ hP hl).noChild (main_wait hw) (hC.at hP hl) hn
  | reaped he hP hl hw hl'' _ hz _ hu =>
    subst he
    have hret := (hpos _ _ hz).ne'
    exact hl'' ▸ (h p _ _ hP hl).reaped hs (main_wait hw) hret (hC.at hP hl) hu
  | born _ _ _ hf hl'' =>
    obtain ⟨k, role, hf⟩ := main_fork hf
    subst hl''
    cases hf with
    | hackbench => exact fun h0 => absurd h0 (lt_irrefl 0)
    | fib => exact fun f0 => absurd rfl f0

/-- In a run whose first waits are armed, every process of the tree kills its own hackbench. -/
theorem killsOwn_of_armedWait (hr : Reach (Sys.step (main args)) ArmedWait (start args) s) :
    KillsOwn (main args) Point.trial? Point.forks s := by
  have hh : Positive s ∧ Holding s := by
    refine hr.invariant (I := fun s => Positive s ∧ Holding s)
      ⟨positive_init (by decide), ?_⟩
      fun _ _ _ h hC hs => ⟨step_positive hs h.1, holding_step h.1 h.2 hC hs⟩
    intro p P l hP hl
    rw [(lookup_init hP).2] at hl
    cases hl
    trivial
  intro p P l target l' hP hl hkill
  obtain ⟨k, np, f, r, rfl⟩ := main_kill hkill
  obtain ⟨h0, hheld⟩ := hh.2 p P _ hP hl
  obtain ⟨Q, o, hQ, ho, hk⟩ := hheld.forked
  exact ⟨h0, hheld.unreaped, Q, o, k, hQ, ho, hk, rfl⟩

/-- A first wait that is not armed leads to a `kill` whose target is not positive. -/
theorem not_killsOwn_of_not_armedWait (hC : ¬ ArmedWait s e)
    (hs : s.step (main args) e = some s') :
    ∃ s'', Reach (Sys.step (main args)) Free s' s'' ∧
      ¬ KillsOwn (main args) Point.trial? Point.forks s'' := by
  simp only [ArmedWait, not_forall] at hC
  obtain ⟨⟨h, fib⟩, hv, hret, hneg⟩ := hC
  obtain ⟨l, hpt, hlt⟩ := Option.bind_eq_some_iff.1 hv
  obtain ⟨P, hP, hl⟩ := point?_eq_some.1 hpt
  generalize e.pid = p at *
  obtain rfl := Event.returns?_eq_some.1 hret
  cases l with
  | pairs | fibs | reps | done => cases hlt
  | trial k np f r q =>
    cases q with
    | wait h fib =>
      cases hlt
      obtain ⟨P', l, s₁, hP', hl', hc, rfl⟩ := step_call hs
      cases hP.symm.trans hP'
      cases hl.symm.trans hl'
      -- the process is where it compares what `wait` returned with `fib`
      have hwaited : s₁.procs.lookup p =
          some { P with life := .code (.trial k np f r (.waited h fib fib)) } := by
        rcases call_wait hc with ⟨rfl, -, rfl⟩ | ⟨-, _, _, _, _, _, -, rfl⟩ <;>
          exact lookup_live_self
      have hkill : ∀ t, Goes t 0 (main args (.trial k np f r (.waited h fib fib)))
          (.trial k np f r (.kill h)) := by
        have hskip : main args (.trial k np f r (.waited h fib fib)) =
            .skip (.trial k np f r (.kill h)) := by
          simp only [main, runTrial, ne_eq, not_true_eq_false, if_false, Call.map]
        rw [hskip]
        exact fun _ => .skip _
      obtain ⟨s₂, hs₂, hprocs⟩ := step_of_goes (s := s₁.tick _) hwaited rfl (hkill _)
      refine ⟨s₂, Reach.tail .refl trivial hs₂, fun hown => hneg ?_⟩
      exact (hown p _ _ h _ (by rw [hprocs]; exact lookup_live_self) rfl rfl).1
    | _ => cases hlt

end

/-- In the runs whose first waits are armed, the three launchers kill only their own hackbench of
the same trial, and any other first wait leads to a `kill` of something else. -/
theorem kills_exactly (c : Launcher.Program) (args : Launcher.Args) (toyArgs : Args) :
    ((∀ s, Reach (Sys.step (c.main args)) Launcher.ArmedWait Launcher.start s →
        KillsOwn (c.main args) Launcher.Point.trial? Launcher.Point.forks s) ∧
      ∀ s e s', ¬ Launcher.ArmedWait s e → s.step (c.main args) e = some s' →
        ∃ s'', Reach (Sys.step (c.main args)) Free s' s'' ∧
          ¬ KillsOwn (c.main args) Launcher.Point.trial? Launcher.Point.forks s'') ∧
    (∀ s, Reach (Sys.step (main toyArgs)) ArmedWait (start toyArgs) s →
        KillsOwn (main toyArgs) Point.trial? Point.forks s) ∧
      ∀ s e s', ¬ ArmedWait s e → s.step (main toyArgs) e = some s' →
        ∃ s'', Reach (Sys.step (main toyArgs)) Free s' s'' ∧
          ¬ KillsOwn (main toyArgs) Point.trial? Point.forks s'' :=
  ⟨⟨fun _ hr => Launcher.killsOwn_of_armedWait hr,
      fun _ _ _ hC hs => Launcher.not_killsOwn_of_not_armedWait hC hs⟩,
    fun _ hr => killsOwn_of_armedWait hr,
    fun _ _ _ hC hs => not_killsOwn_of_not_armedWait hC hs⟩

/-- The fork of hackbench fails in a trial of `launcher.cpp`, up to its `kill`. -/
def forkFails : List Event :=
  [.call 1 0, .call 1 0, .call 1 0, .call 1 (-1), .call 1 0, .call 1 0, .call 1 0, .call 1 0,
    .call 1 2, .call 1 0, .call 2 0, .call 2 0, .exit 2 (.exited 0), .call 1 2, .call 1 0,
    .call 1 0, .call 1 0, .call 1 0]

/-- The same in `hackbench_interupt.cpp`. -/
def interuptForkFails : List Event :=
  [.call 1 0, .call 1 0, .call 1 0, .call 1 0, .call 1 0, .call 1 2, .call 1 0, .call 1 (-1),
    .call 1 0, .call 2 0, .call 2 0, .exit 2 (.exited 0), .call 1 2, .call 1 0, .call 1 0,
    .call 1 0, .call 1 0]

/-- The same in `toy/launcher.c`. -/
def toyForkFails : List Event :=
  [.call 1 0, .call 1 0, .call 1 0, .call 1 (-1), .call 1 0, .call 1 0, .call 1 2, .call 1 0,
    .call 2 0, .exit 2 (.exited 0), .call 1 2, .call 1 0]

/-- Each of the three launchers can execute `kill(-1, SIGTERM)`. -/
theorem kills_everything :
    (¬ ∀ testProg args s,
      Reach (Sys.step (Launcher.Program.main (.launcher testProg) args)) Free Launcher.start
        s → KillsOwn (Launcher.Program.main (.launcher testProg) args) Launcher.Point.trial?
          Launcher.Point.forks s) ∧
    (¬ ∀ args s,
      Reach (Sys.step (Launcher.Program.main .interupt args)) Free Launcher.start s →
        KillsOwn (Launcher.Program.main .interupt args) Launcher.Point.trial?
          Launcher.Point.forks s) ∧
    ¬ ∀ args s, Reach (Sys.step (main args)) Free (start args) s →
      KillsOwn (main args) Point.trial? Point.forks s := by
  refine ⟨fun h => ?_, fun h => ?_, fun h => ?_⟩
  · have hk := h Launcher.gzipProg {} _ (.of_exec forkFails rfl)
    exact absurd (hk 1 _ _ (-1) _ rfl rfl rfl).1 (by decide)
  · have hk := h {} _ (.of_exec interuptForkFails rfl)
    exact absurd (hk 1 _ _ (-1) _ rfl rfl rfl).1 (by decide)
  · have hk := h {} _ (.of_exec toyForkFails rfl)
    exact absurd (hk 1 _ _ (-1) _ rfl rfl rfl).1 (by decide)

end Toy
