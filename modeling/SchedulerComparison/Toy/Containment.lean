import Mathlib.Tactic.Linarith
import Mathlib.Tactic.Ring
import SchedulerComparison.Toy.Sweep

/-!
# The children of the toy launcher

A child of `toy/launcher.c` is contained when it does nothing but execute its program. Unlike
the C++ launchers, `run_trial` has no `exit` after its two `execl` calls, so a child whose
`execl` fails goes on as a second launcher. `contained_exactly` shows that this is what
containment depends on: in a run without a failed `execl` every child is contained and, when
neither step size is `0`, `run_trial` is entered once for each trial, by the launcher, which leaves
out none of those that were asked for when its loops fit into `int`s; and the first failed `execl`
of any run ends containment.
-/

open Posix Posix.Sys Transition

namespace Toy

open Launcher (Image launcherPid)

/-- Every process but the launcher is about to execute its program, or runs hackbench or fib, or
has ended. -/
structure Contained (s : Procs) : Prop where
  code : ∀ p P l, p ≠ launcherPid → s.procs.lookup p = some P → P.life = .code l → AtExecl l
  image : ∀ p P img, s.procs.lookup p = some P → P.life = .image img →
    img.path = "hackbench" ∨ img.path = "fib"

/-- The control point is one where a forked child executes its program. -/
def Point.atExecl : Point → Bool
  | .trial _ _ _ _ (.hackbenchForked h) => h == 0
  | .trial _ _ _ _ (.fibForked _ f) => f == 0
  | _ => false

/-- No `execl` returns. -/
def NoExeclFails (s : Procs) (e : Event) : Prop :=
  ∀ l ∈ s.point? e.pid, l.atExecl = true → e.returns? e.pid ≠ some (-1)

instance (s : Procs) (e : Event) : Decidable (NoExeclFails s e) :=
  inferInstanceAs (Decidable (∀ l ∈ _, _ → _))

/-- The trials for which `run_trial` was entered, by whatever process, in order. -/
def trialsRun (s : Procs) : List (Int × Int × Int) :=
  s.calls.filterMap fun call => call.point.enters

/-- `run_trial` was entered by the launcher only, and for no trial twice. -/
structure RunOnce (s : Procs) : Prop where
  byLauncher : ∀ call ∈ s.calls, call.point.enters.isSome = true → call.pid = launcherPid
  once : (trialsRun s).Nodup

section
variable {args : Args} {s s' : Procs} {e : Event} {l l' : Point}

theorem atExecl_iff : l.atExecl = true ↔ AtExecl l := by
  constructor
  · intro h
    cases l with
    | pairs | fibs | reps | done => cases h
    | trial k np f r p =>
      cases p with
      | hackbenchForked h₀ =>
        obtain rfl : h₀ = 0 := by simpa only [Point.atExecl, beq_iff_eq] using h
        exact .hackbench k np f r
      | fibForked h₀ f₀ =>
        obtain rfl : f₀ = 0 := by simpa only [Point.atExecl, beq_iff_eq] using h
        exact .fib k np f r h₀
      | _ => cases h
  · intro h
    cases h <;> rfl

/-! ## What a contained child does -/

theorem AtExecl.not_fork {k : Nat} {role : Launcher.Role} {g : Int → Point} (hl : AtExecl l)
    (hg : ForksAt l k role g) : False := by
  cases hl <;> cases hg

theorem AtExecl.not_wait {g : Int → Point} (hl : AtExecl l) (hg : WaitsAt l g) : False := by
  cases hl <;> cases hg

theorem AtExecl.enters (hl : AtExecl l) : l.enters = none := by
  cases hl <;> rfl

/-- A child that goes on in the code does so because its `execl` returned. -/
theorem AtExecl.returned {n : Nat} {ret : Int} (hl : AtExecl l) (hg : Goes n ret (main args l) l') :
    ret = -1 := by
  cases hl with
  | hackbench | fib => cases hg with | execl _ _ hr => exact hr

/-- A step in which no `execl` returns keeps the children contained. -/
theorem contained_step (hc : Contained s) (hC : NoExeclFails s e)
    (hs : s.step (main args) e = some s') : Contained s' := by
  refine ⟨fun p P' l' hp hP' hl' => ?_, fun p P' img hP' hl' => ?_⟩
  · cases step_arrives hs hP' hl' with
    | same _ hP => exact hc.code p P' l' hp hP hl'
    | goes he hP hl hg =>
      subst he
      have hx := hc.code p _ _ hp hP hl
      have hret := hx.returned hg
      refine absurd ?_ (hC _ (point?_eq_some.2 ⟨_, hP, hl⟩) (atExecl_iff.2 hx))
      rw [hret]
      exact Event.returns?_eq_some.2 rfl
    | forkFailed _ hP hl hf | forked _ hP hl hf =>
      obtain ⟨k, role, hf⟩ := main_fork hf
      exact ((hc.code p _ _ hp hP hl).not_fork hf).elim
    | noChild _ hP hl hw | reaped _ hP hl hw =>
      exact ((hc.code p _ _ hp hP hl).not_wait (main_wait hw)).elim
    | born _ _ _ hf hl₀ =>
      obtain ⟨k, role, hf⟩ := main_fork hf
      exact hl₀ ▸ hf.child
  · rcases step_image hs hP' hl' with hP | ⟨P, l, k, -, -, hx⟩
    · exact hc.image p P' img hP hl'
    · exact (main_execl hx).2

theorem contained_start (args : Args) : Contained (start args) := by
  refine ⟨fun p P l hp hP _ => absurd (lookup_init hP).1 hp, fun p P img hP hl => ?_⟩
  rw [(lookup_init hP).2] at hl
  cases hl

/-! ## The launcher itself -/

/-- The launcher is in the table, and not about to execute anything. -/
def LauncherStays (s : Procs) : Prop :=
  ∃ P, s.procs.lookup launcherPid = some P ∧ ∀ l, P.life = .code l → ¬ AtExecl l

theorem Flow.not_atExecl (hf : Flow args l l') : ¬ AtExecl l' := by
  cases hf with
  | run _ _ _ _ hp => cases hp <;> nofun
  | _ => nofun

theorem ForksAt.not_atExecl {k : Nat} {role : Launcher.Role} {g : Int → Point} {ret : Int}
    (hf : ForksAt l k role g) (hr : ret ≠ 0) : ¬ AtExecl (g ret) := by
  cases hf <;> rintro ⟨⟩ <;> exact hr rfl

/-- A fork does not return `0` to the launcher, so it never takes the branch of a child. -/
theorem launcherStays_step (h : LauncherStays s) (hs : s.step (main args) e = some s') :
    LauncherStays s' := by
  obtain ⟨P, hP, hx⟩ := h
  obtain ⟨P', hP', -⟩ := step_before hs hP
  refine ⟨P', hP', fun l' hl' => ?_⟩
  cases step_arrives hs hP' hl' with
  | same _ hP₁ => cases hP.symm.trans hP₁; exact hx l' hl'
  | goes _ _ _ hg => exact (main_flow hg).not_atExecl
  | forkFailed _ _ _ hf hl'' =>
    obtain ⟨k, role, hf⟩ := main_fork hf
    exact hl'' ▸ hf.not_atExecl (by decide)
  | forked _ _ _ hf hl'' h0 =>
    obtain ⟨k, role, hf⟩ := main_fork hf
    exact hl'' ▸ hf.not_atExecl h0.ne'
  | noChild _ _ _ hw hl'' | reaped _ _ _ hw hl'' =>
    subst hl''
    cases main_wait hw <;> nofun
  | born _ _ _ _ _ _ hn => cases hn.symm.trans hP

theorem launcherStays_start (args : Args) : LauncherStays (start args) :=
  ⟨_, rfl, by rintro l ⟨⟩; nofun⟩

/-- A failed `execl` ends containment. -/
theorem not_contained_of_execlFails (h : LauncherStays s) (hC : ¬ NoExeclFails s e)
    (hs : s.step (main args) e = some s') : ¬ Contained s' := by
  simp only [NoExeclFails, not_forall, not_not] at hC
  obtain ⟨l, hpt, hx, hret⟩ := hC
  have hx := atExecl_iff.1 hx
  obtain ⟨P, hP, hl⟩ := point?_eq_some.1 hpt
  have hne : e.pid ≠ launcherPid := by
    intro he
    obtain ⟨P', hP', hx'⟩ := h
    cases (he ▸ hP).symm.trans hP'
    exact hx' l hl hx
  generalize e.pid = p at *
  obtain rfl := Event.returns?_eq_some.1 hret
  obtain ⟨P', l₁, s₁, hP', hl₁, hcall, rfl⟩ := step_call hs
  cases hP.symm.trans hP'
  cases hl.symm.trans hl₁
  intro hc
  cases hx with
  | hackbench | fib =>
    rcases call_execl hcall with ⟨h0, -⟩ | ⟨-, rfl⟩
    · cases h0
    · cases hc.code p _ _ hne lookup_live_self rfl

/-! ## Each trial is run once -/

/-- A contained child does not enter `run_trial`. -/
theorem byLauncher_step (hc : Contained s)
    (h : ∀ call ∈ s.calls, call.point.enters.isSome = true → call.pid = launcherPid)
    (hs : s.step (main args) e = some s') :
    ∀ call ∈ s'.calls, call.point.enters.isSome = true → call.pid = launcherPid := by
  rcases step_calls hs with ⟨hcalls, -⟩ | ⟨p, ret, P, l, rfl, hP, hl, hcalls⟩
  · exact hcalls ▸ h
  · intro call hcall hsome
    rw [hcalls, List.mem_append, List.mem_singleton] at hcall
    rcases hcall with hcall | rfl
    · exact h call hcall hsome
    · by_contra hne
      rw [(hc.code p P l hne hP hl).enters] at hsome
      cases hsome

/-- Where only the launcher enters `run_trial`, its trials are all that are run. -/
theorem trialsRun_eq (h : ∀ call ∈ s.calls, call.point.enters.isSome = true →
    call.pid = launcherPid) : trialsRun s = s.entered Point.enters launcherPid := by
  rw [entered, callsOf, List.filterMap_filter, trialsRun]
  refine List.filterMap_congr fun call hcall => ?_
  cases henters : call.point.enters with
  | none => rw [ite_self]
  | some t =>
    have hpid := h call hcall (by rw [henters]; rfl)
    rw [if_pos (decide_eq_true hpid)]

/-- The trial `t` comes before the control point in the sweep. It is past once `run_trial` has made
its first call. -/
def Earlier (args : Args) (t : Int × Int × Int) : Point → Prop
  | .pairs _ np => 0 < (np - t.1) * args.hackbenchPairsStepSize
  | .fibs _ np f => 0 < (np - t.1) * args.hackbenchPairsStepSize ∨
      np = t.1 ∧ 0 < (f - t.2.1) * args.fibNumberStepSize
  | .reps _ np f r | .trial _ np f r .forkHackbench =>
    0 < (np - t.1) * args.hackbenchPairsStepSize ∨
      np = t.1 ∧ (0 < (f - t.2.1) * args.fibNumberStepSize ∨ f = t.2.1 ∧ t.2.2 < r)
  | .trial _ np f r _ => 0 < (np - t.1) * args.hackbenchPairsStepSize ∨
      np = t.1 ∧ (0 < (f - t.2.1) * args.fibNumberStepSize ∨ f = t.2.1 ∧ t.2.2 < r + 1)
  | .done => True

/-- A step away from a number is a step further. -/
theorem step_further {a b step : Int} (h : 0 < (a - b) * step ∨ a = b) (h0 : step ≠ 0) :
    0 < (a + step - b) * step := by
  have hsq : 0 < step * step := mul_self_pos.2 h0
  have heq : (a + step - b) * step = (a - b) * step + step * step := by ring
  rw [heq]
  rcases h with h | rfl
  · omega
  · rw [sub_self, zero_mul, zero_add]; exact hsq

/-- The sweep goes on to later trials. -/
theorem Earlier.flow {t : Int × Int × Int} (hp : args.hackbenchPairsStepSize ≠ 0)
    (hf : args.fibNumberStepSize ≠ 0) (hfl : Flow args l l') (h : Earlier args t l) :
    Earlier args t l' := by
  cases hfl with
  | fibs => exact .inl h
  | done => trivial
  | reps => exact h.imp_right fun h => ⟨h.1, .inl h.2⟩
  | pairs => exact step_further (h.imp_right And.left) hp
  | trial => exact h
  | nextFib =>
    exact h.imp_right fun h => ⟨h.1, step_further (h.2.imp_right And.left) hf⟩
  | rep => exact h
  | run _ _ _ _ hp => cases hp <;> exact h

/-- A call goes on to later trials. -/
theorem Earlier.successor {t : Int × Int × Int} (hp : args.hackbenchPairsStepSize ≠ 0)
    (hf : args.fibNumberStepSize ≠ 0) (hs : Successor (main args) l l') (h : Earlier args t l) :
    Earlier args t l' := by
  cases hs with
  | goes hg => exact h.flow hp hf (main_flow hg)
  | fork hc _ hl =>
    obtain ⟨k, role, hg⟩ := main_fork hc
    subst hl
    cases hg with
    | hackbench =>
      exact h.imp_right fun h => ⟨h.1, h.2.imp_right fun h => ⟨h.1, h.2.trans (Int.lt_succ _)⟩⟩
    | fib => exact h
  | wait hc hl =>
    subst hl
    cases main_wait hc <;> exact h

/-- Behind the first call of `run_trial` its trial is an earlier one. -/
theorem earlier_of_entered {k : Nat} {np f r : Int}
    (hs : Successor (main args) (.trial k np f r .forkHackbench) l') :
    Earlier args (np, f, r) l' := by
  cases hs with
  | goes hg => cases hg
  | fork hc _ hl =>
    cases hc
    subst hl
    exact .inr ⟨rfl, .inr ⟨rfl, Int.lt_succ r⟩⟩
  | wait hc => cases hc

/-- The trials for which `run_trial` was entered are earlier than where the launcher is. -/
structure Sweeps (args : Args) (s : Procs) : Prop extends RunOnce s where
  earlier : ∀ l, s.point? launcherPid = some l → ∀ t ∈ trialsRun s, Earlier args t l

theorem sweeps_start (args : Args) : Sweeps args (start args) where
  byLauncher _ h := absurd h List.not_mem_nil
  once := List.nodup_nil
  earlier _ _ _ h := absurd h List.not_mem_nil

/-- What a call enters is added to what was entered. -/
theorem trialsRun_append {call : Made Point} (h : s'.calls = s.calls ++ [call]) :
    trialsRun s' = trialsRun s ++ call.point.enters.toList := by
  rw [trialsRun, h, List.filterMap_append, ← trialsRun]
  cases henters : call.point.enters <;> simp [henters]

theorem sweeps_step (hp : args.hackbenchPairsStepSize ≠ 0) (hf : args.fibNumberStepSize ≠ 0)
    (h : LauncherStays s) (hc : Contained s) (hw : Sweeps args s)
    (hs : s.step (main args) e = some s') : Sweeps args s' := by
  obtain ⟨P₀, hP₀, -⟩ := h
  have byLauncher := byLauncher_step hc hw.byLauncher hs
  have earlier : ∀ l', s'.point? launcherPid = some l' → ∀ t ∈ trialsRun s, Earlier args t l' := by
    intro l' hl' t ht
    rcases step_successor hs hP₀ hl' with ⟨-, hl⟩ | ⟨-, l, -, hl, hsucc⟩
    · exact hw.earlier l' hl t ht
    · exact (hw.earlier l hl t ht).successor hp hf hsucc
  rcases step_calls hs with ⟨hcalls, -⟩ | ⟨p, ret, P, l, rfl, hP, hl, hcalls⟩
  · have hrun : trialsRun s' = trialsRun s := by rw [trialsRun, hcalls, trialsRun]
    exact ⟨⟨byLauncher, hrun ▸ hw.once⟩, fun l' hl' t ht => earlier l' hl' t (hrun ▸ ht)⟩
  · have hrun := trialsRun_append hcalls
    cases henters : l.enters with
    | none =>
      rw [henters, Option.toList_none, List.append_nil] at hrun
      exact ⟨⟨byLauncher, hrun ▸ hw.once⟩, fun l' hl' t ht => earlier l' hl' t (hrun ▸ ht)⟩
    | some t =>
      obtain rfl : p = launcherPid :=
        byLauncher ⟨p, l, ret, s.clock⟩ (hcalls ▸ List.mem_append_right _ List.mem_cons_self)
          (by rw [henters]; rfl)
      obtain ⟨k, rfl⟩ := enters_eq_some henters
      have hpt : s.point? launcherPid = some (.trial k t.1 t.2.1 t.2.2 .forkHackbench) :=
        point?_eq_some.2 ⟨P, hP, hl⟩
      rw [henters, Option.toList_some] at hrun
      refine ⟨⟨byLauncher, ?_⟩, fun l' hl' u hu => ?_⟩
      · rw [hrun, List.nodup_append]
        refine ⟨hw.once, List.nodup_singleton _, fun u hu v hv => ?_⟩
        rw [List.mem_singleton.1 hv]
        rintro rfl
        -- no trial is earlier than itself
        have := hw.earlier _ hpt u hu
        simp only [Earlier, sub_self, zero_mul, lt_self_iff_false, and_false, or_self] at this
      · rw [hrun, List.mem_append, List.mem_singleton] at hu
        rcases hu with hu | rfl
        · exact earlier l' hl' u hu
        · rcases step_successor hs hP hl' with ⟨hne, -⟩ | ⟨-, l, -, hl₁, hsucc⟩
          · exact absurd rfl (hne ret)
          · cases hpt.symm.trans hl₁
            exact earlier_of_entered hsucc

/-! ## Containment -/

theorem reach_launcherStays {C : Procs → Event → Prop}
    (hr : Reach (Sys.step (main args)) C (start args) s) : LauncherStays s :=
  hr.invariant (launcherStays_start args) fun _ _ _ h _ hs => launcherStays_step h hs

theorem reach_contained (hr : Reach (Sys.step (main args)) NoExeclFails (start args) s) :
    Contained s :=
  hr.invariant (contained_start args) fun _ _ _ h hC hs => contained_step h hC hs

theorem reach_sweeps (hp : args.hackbenchPairsStepSize ≠ 0) (hf : args.fibNumberStepSize ≠ 0)
    (hr : Reach (Sys.step (main args)) NoExeclFails (start args) s) : Sweeps args s := by
  have hinv : LauncherStays s ∧ Contained s ∧ Sweeps args s :=
    hr.invariant (I := fun s => LauncherStays s ∧ Contained s ∧ Sweeps args s)
      ⟨launcherStays_start args, contained_start args, sweeps_start args⟩
      fun _ _ _ ⟨h, hc, hw⟩ hC hs =>
        ⟨launcherStays_step h hs, contained_step hc hC hs, sweeps_step hp hf h hc hw hs⟩
  exact hinv.2.2

/-- When the loops fit into `int`s and have ended, `run_trial` was entered for the trials that were
asked for. -/
theorem trialsRun_done (hints : args.AreInts) (hfits : args.SweepFits)
    (hr : Reach (Sys.step (main args)) NoExeclFails (start args) s)
    (hdone : s.point? launcherPid = some .done) : trialsRun s = requestedTrials args := by
  have hinv := hr.invariant (I := fun s => Contained s ∧
    ∀ call ∈ s.calls, call.point.enters.isSome = true → call.pid = launcherPid)
    ⟨contained_start args, fun call h => absurd h List.not_mem_nil⟩
    fun _ _ _ ⟨hc, h⟩ hC hs => ⟨contained_step hc hC hs, byLauncher_step hc h hs⟩
  rw [trialsRun_eq hinv.2]
  exact (sweep_performs args hints hfits).complete s hr.free hdone

end

/-- In the runs in which no `execl` fails, every child is contained and `run_trial` is entered by
the launcher only, for no trial twice and, when the loops fit into `int`s and have ended, for all
that were asked for; a failed `execl` ends containment. -/
theorem contained_exactly (args : Args) :
    (∀ s, Reach (Sys.step (main args)) NoExeclFails (start args) s → Contained s ∧
      (args.hackbenchPairsStepSize ≠ 0 → args.fibNumberStepSize ≠ 0 → RunOnce s) ∧
      (args.AreInts → args.SweepFits → s.point? launcherPid = some .done →
        trialsRun s = requestedTrials args)) ∧
    ∀ s e s', Reach (Sys.step (main args)) Free (start args) s → ¬ NoExeclFails s e →
      s.step (main args) e = some s' → ¬ Contained s' :=
  ⟨fun _ hr => ⟨reach_contained hr, fun hp hf => (reach_sweeps hp hf hr).toRunOnce,
      fun hints hfits hdone => trialsRun_done hints hfits hr hdone⟩,
    fun _ _ _ hr hC hs => not_contained_of_execlFails (reach_launcherStays hr) hC hs⟩

/-- Two fib numbers. -/
def twoFibNumbers : Args where
  maxFibNumber := 2

/-- Two trials: the fib of each exits, and its hackbench is reaped after the SIGTERM. -/
def twoTrials : List Event :=
  [.call 1 0, .call 1 0, .call 1 0,
    .call 1 2, .call 1 0, .call 2 0, .call 1 0, .call 1 3, .call 1 0, .call 3 0, .pass 700,
    .exit 3 (.exited 0), .call 1 3, .call 1 0, .call 1 0, .term 2, .call 1 2, .call 1 0,
    .call 1 0, .call 1 0, .call 1 0, .call 1 0,
    .call 1 4, .call 4 0, .call 1 0, .call 1 0, .call 1 5, .call 5 0, .call 1 0, .pass 900,
    .exit 5 (.exited 0), .call 1 5, .call 1 0, .call 1 0, .term 4, .call 1 4, .call 1 0,
    .call 1 0, .call 1 0, .call 1 0, .call 1 0]

/-- The run of `twoTrials` is one without a failed `execl`, and each of the trials that were asked
for is run once in it. -/
theorem contained_twoTrials : ∃ s,
    exec (Sys.step (main twoFibNumbers)) NoExeclFails (start twoFibNumbers) twoTrials = some s ∧
      trialsRun s = [(1, 1, 0), (1, 2, 0)] ∧ Contained s ∧ RunOnce s ∧
      trialsRun s = requestedTrials twoFibNumbers := by
  have h := (contained_exactly twoFibNumbers).1 _ (.of_exec twoTrials rfl)
  refine ⟨_, rfl, rfl, h.1, h.2.1 (by decide) (by decide), h.2.2 ?_ (by decide) rfl⟩
  exact ⟨by decide, by decide, by decide, by decide, by decide, by decide, by decide, by decide⟩

/-- The `execl` of hackbench fails, and its child goes on to warm up and to fork a fib of its
own. -/
def secondLauncher : List Event :=
  [.call 1 0, .call 1 0, .call 1 0, .call 1 2, .call 2 (-1), .call 2 0, .call 2 3]

/-- A child of the toy launcher can become a second launcher. -/
theorem second_launcher :
    ¬ ∀ args s, Reach (Sys.step (main args)) Free (start args) s → Contained s ∧ RunOnce s := by
  intro h
  have hc := (h {} _ (.of_exec secondLauncher rfl)).1
  cases hc.code 2 _ (.trial 0 1 1 0 (.fibForked 0 3)) (by decide) rfl rfl

end Toy
