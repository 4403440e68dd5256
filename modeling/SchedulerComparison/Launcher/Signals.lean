import SchedulerComparison.Launcher.Children

/-!
# What the C++ launchers signal

`run_trial` sends its SIGTERM to the value of the variable `hackbench`, whatever it is. When the
fork of hackbench failed it is `-1`, and `kill(-1, SIGTERM)` signals every process that the user
may signal. `killsOwn_of_armedWait` shows that the `kill` is otherwise right: its target is the
hackbench that was forked in the same trial and not reaped. The condition is on the first wait,
after which the `kill` cannot be avoided (`kills_of_waited`).
-/

open Posix Posix.Sys Transition

namespace Launcher

/-- Every process that is about to `kill` has as its target the pid of its own child, which it
forked as hackbench in the trial that it is in and has not reaped. -/
def KillsOwn {L Img Out : Type} (code : L → Call L Img Out) (trial? : L → Option Nat)
    (forks : L → Option (Nat × Role)) (s : Sys L Img Out) : Prop :=
  ∀ p P l target l', s.procs.lookup p = some P → P.life = .code l → code l = .kill target l' →
    0 < target ∧ target ∈ s.unreaped p ∧ ∃ Q o k, s.procs.lookup target = some Q ∧
      Q.origin = some o ∧ forks o = some (k, .hackbench) ∧ trial? l = some k

/-- A first `wait(NULL)` that returns the value of the test program's variable, after which
`run_trial` kills, does so in a trial whose hackbench was forked. -/
def ArmedWait (s : Procs) (e : Event) : Prop :=
  ∀ v ∈ (s.point? launcherPid).bind Point.waitsFor?, e.returns? launcherPid = some v.2 → 0 < v.1

instance (s : Procs) (e : Event) : Decidable (ArmedWait s e) :=
  inferInstanceAs (Decidable (∀ v ∈ _, _ → _))

/-- Where `run_trial` is about to kill, it has forked its hackbench. -/
def TrialArmed : TrialPoint → Prop
  | .waited h _ t w | .tidy h _ t w _ | .compare h _ t w _ => w = t → 0 < h
  | .coutTime h _ | .kill h => 0 < h
  | _ => True

/-- Where a launcher is about to kill, it has forked its hackbench. -/
def Armed : Point → Prop
  | .trial _ _ _ p => TrialArmed p
  | _ => True

section
variable {c : Program} {args : Args} {s s' : Procs} {e : Event}

theorem Armed.flow {n : Nat} {l l' : Point} (hf : Flow n l l') (ha : At s l) (h : Armed l) :
    Armed l' := by
  cases hf with
  | begin | reps | done | pairs | rep => trivial
  | trial _ _ _ hf => rcases hf with rfl | rfl <;> trivial
  | run k np r hp =>
    cases hp with
    | finish | tidy | cout => exact h
    | record => exact h rfl
    | testChild hp =>
      rcases hp with ⟨h, start, rfl⟩ | ⟨start, rfl⟩
      · exact (Both.testProg ha).ne_zero.elim
      · exact (HoldsOr.ne_zero ha).elim
    | _ => trivial

theorem ForksAt.armed {n : Nat} {l : Point} {role : Role} {f : Int → Point} {ret : Int}
    (hf : ForksAt l n role f) : Armed (f ret) := by
  cases hf <;> trivial

theorem WaitsAt.armed {l : Point} {f : Int → Point} {ret : Int} (hw : WaitsAt l f)
    (hl : LauncherAt s l) (hC : ArmedWait s (.call launcherPid ret)) : Armed (f ret) := by
  cases hw with
  | second => trivial
  | first k np r h start t =>
    rintro rfl
    exact hC (h, ret) (by rw [point?_eq_some.2 hl]; rfl) rfl

/-- A step keeps the launcher armed when its first wait is. -/
theorem armed_step (hi : Inv s) (ha : ∀ l, LauncherAt s l → Armed l) (hC : ArmedWait s e)
    (hs : s.step (c.main args) e = some s') : ∀ l, LauncherAt s' l → Armed l := by
  intro l' hl'
  cases move_of_step hs hi.present hl' with
  | other _ hl _ => exact ha l' hl
  | goes _ hl hg _ => exact (ha _ hl).flow hg (hi.holds _ hl)
  | forkFailed _ _ hf hl' _ | forked _ _ hf hl' _ _ _ _ => exact hl' ▸ hf.armed
  | noChild he hl hw hl' _ _ | reaped he hl hw hl' _ _ _ _ =>
    subst he
    exact hl' ▸ hw.armed hl hC

/-- The kills of a launcher are at this point. -/
theorem main_kill {l l' : Point} {target : Int} (hl : c.main args l = .kill target l') :
    ∃ k np r, l = .trial k np r (.kill target) := by
  cases hl ▸ main_calls c args l with
  | kill k np r => exact ⟨k, np, r, rfl⟩

/-- No signal was sent to the launcher, which no process forked. -/
structure Unsignalled (s : Procs) : Prop where
  root : ∀ P, s.procs.lookup launcherPid = some P → P.origin = none
  kills : ∀ k ∈ s.kills, ¬ k.hits launcherPid

theorem unsignalled_start : Unsignalled start := by
  refine ⟨fun P hP => ?_, fun k hk => absurd hk List.not_mem_nil⟩
  cases hP
  rfl

/-- The launcher does not signal itself: the pid of a child is not its own, and `kill(-1, SIGTERM)`
leaves the sender out. -/
theorem unsignalled_step (hi : Inv s) (hch : InChildren s) (hu : Unsignalled s)
    (hs : s.step (c.main args) e = some s') : Unsignalled s' := by
  refine ⟨fun P' hP' => ?_, ?_⟩
  · obtain ⟨P, hP⟩ := Option.isSome_iff_exists.1 hi.present
    obtain ⟨P'', hP'', hb⟩ := step_before hs hP
    cases hP'.symm.trans hP''
    rw [hb.origin, hu.root P hP]
  · rcases step_kills hs with hk | ⟨p, ret, P, l, target, l', rfl, hP, hl, hc, hk⟩
    · rw [hk]
      exact hu.kills
    · obtain ⟨k, np, r, rfl⟩ := main_kill hc
      obtain rfl : p = launcherPid := by
        by_contra hne
        cases hch p P _ hne hP hl with
        | trial _ _ _ hp => cases hp
      have hh : HoldsOr s k .hackbench target := hi.holds _ ⟨P, hP, hl⟩
      rw [hk]
      intro sent hsent
      rcases List.mem_append.1 hsent with hsent | hsent
      · exact hu.kills sent hsent
      obtain rfl := List.mem_singleton.1 hsent
      rcases hh with rfl | hh
      · rintro (h | h | ⟨-, h⟩)
        · cases h
        · cases h
        · exact h rfl
      · rintro (h | h | ⟨h, -⟩)
        · obtain ⟨Q, o, hQ, -, ho, -⟩ := hh.forked
          obtain rfl : target = launcherPid := h
          cases (hu.root Q hQ).symm.trans ho
        · exact absurd h hh.pos.ne'
        · have := hh.pos
          simp only at h
          omega

/-- In a run whose first waits are armed, a launcher kills its own hackbench. -/
theorem killsOwn_of_armedWait (hr : Reach (Sys.step (c.main args)) ArmedWait start s) :
    KillsOwn (c.main args) Point.trial? Point.forks s := by
  have ha : Inv s ∧ ∀ l, LauncherAt s l → Armed l := by
    refine hr.invariant (I := fun s => Inv s ∧ ∀ l, LauncherAt s l → Armed l)
      ⟨inv_start, ?_⟩ fun _ _ _ h hC hs => ⟨inv_step h.1 hs, armed_step h.1 h.2 hC hs⟩
    rintro l ⟨P, hP, hl⟩
    cases hP
    cases hl
    trivial
  intro p P l target l' hP hl hkill
  obtain ⟨k, np, r, rfl⟩ := main_kill hkill
  obtain rfl : p = launcherPid := by
    by_contra hne
    cases reach_inChildren hr p P _ hne hP hl with
    | trial _ _ _ hp => cases hp
  have hpos : 0 < target := ha.2 _ ⟨P, hP, hl⟩
  have hh : HoldsOr s k .hackbench target := ha.1.holds _ ⟨P, hP, hl⟩
  have hh : Holds s k .hackbench target := hh.resolve_left (by omega)
  obtain ⟨Q, o, hQ, -, ho, hk⟩ := hh.forked
  exact ⟨hpos, hh.unreaped, Q, o, k, hQ, ho, hk, rfl⟩

/-- After a first wait that returned the value of the test program's variable, `run_trial` can go
on to kill. -/
theorem kills_of_waited {k start : Nat} {np r h t : Int}
    (hl : LauncherAt s (.trial k np r (.waited h start t t))) :
    ∃ s', Reach (Sys.step (c.main args)) Free s s' ∧ LauncherAt s' (.trial k np r (.kill h)) := by
  obtain ⟨s₁, hr, hl₁⟩ := reach_coutTime c args hl
  have hcout : Goes s₁.clock 0 (c.main args (.trial k np r (.coutTime h (s.clock - start))))
      (.trial k np r (.kill h)) := by
    cases c <;> exact .print _ _
  obtain ⟨s₂, hs₂, hl₂, -⟩ := launcher_goes hl₁ hcout
  exact ⟨s₂, hr.tail trivial hs₂, hl₂⟩

/-- A first wait that is not armed leads to a `kill` whose target is not positive. -/
theorem not_killsOwn_of_not_armedWait (hC : ¬ ArmedWait s e)
    (hs : s.step (c.main args) e = some s') :
    ∃ s'', Reach (Sys.step (c.main args)) Free s' s'' ∧
      ¬ KillsOwn (c.main args) Point.trial? Point.forks s'' := by
  simp only [ArmedWait, not_forall] at hC
  obtain ⟨⟨h, t⟩, hv, hret, hneg⟩ := hC
  obtain ⟨k, np, r, start, hl⟩ := launcherAt_wait hv
  obtain rfl := Event.returns?_eq_some.1 hret
  obtain ⟨s'', hr, P, hP, hl''⟩ := kills_of_waited (step_firstWait hl hs).1
  exact ⟨s'', hr, fun hown => hneg (hown _ P _ h _ hP hl'' (by cases c <;> rfl)).1⟩

end

end Launcher
