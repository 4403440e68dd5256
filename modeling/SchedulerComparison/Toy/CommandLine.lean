import SchedulerComparison.Toy.Containment
import SchedulerComparison.Toy.Fib
import SchedulerComparison.Toy.ProcessOptions
import SchedulerComparison.Toy.Sweep

/-!
# The programs of a toy trial get what was asked for

The toy launcher reads eight numbers and hands them to hackbench and to fib as texts. A child whose
`execl` returned goes on as a second launcher, so that the trials of a sweep may start in any number
of processes. `programs_started` is about all of them: in every run, with any failures, what a
process executes is the program that it was forked for, of a trial that the command line asks for,
and each program reads its arguments as they were meant, or refuses them. hackbench is pinned only
for a `1`, and fib for every number but `0`.
-/

open Posix Posix.Sys Transition CxxString

namespace Toy

open Launcher (Image IsInt Role launcherPid)

/-- The arguments of `main` (`launcher.c:82-97`). -/
def mainArgs : List (List Char) → Option Args
  | [_, minPairs, maxPairs, pairsStep, minFib, maxFib, fibStep, reps, pin] =>
    some {
      minHackbenchPairs := (atoi minPairs).toInt
      maxHackbenchPairs := (atoi maxPairs).toInt
      hackbenchPairsStepSize := (atoi pairsStep).toInt
      minFibNumber := (atoi minFib).toInt
      maxFibNumber := (atoi maxFib).toInt
      fibNumberStepSize := (atoi fibStep).toInt
      numReps := (atoi reps).toInt
      pinToCore := (atoi pin).toInt }
  | _ => none

/-- The program of a role. -/
def Args.image (args : Args) (np f : Int) : Role → Image
  | .hackbench => hackbenchImage args np
  | .testProg => fibImage args f

/-- A value of a loop from `lo` on. -/
def Value (lo step i : Int) : Prop := IsInt i ∧ ∃ n : Nat, i = lo + n * step

/-- A trial that the arguments ask for. -/
structure TrialOf (args : Args) (np f r : Int) : Prop where
  pairs : Value args.minHackbenchPairs args.hackbenchPairsStepSize np
  pairs_le : np ≤ args.maxHackbenchPairs
  fib : Value args.minFibNumber args.fibNumberStepSize f
  fib_le : f ≤ args.maxFibNumber
  rep : 0 ≤ r ∧ r < args.numReps

/-- How the program of a role reads its arguments. fib is given a stack on which its calls can be
nested. -/
def Understood (args : Args) (np f : Int) (argv : List (List Char)) : Role → Prop
  | .hackbench => ToyHackbench.processOptions argv =
      if np = 0 then .error (.errorExit [Launcher.complaint "--groups|-g requires an integer > 0"])
      else .ok (ToyHackbench.trialGlobals np (if args.pinToCore = 1 then 0 else -1))
  | .testProg => ∀ (pins : Int → Bool) (depth : Nat), 1 ≤ depth → f ≤ depth + 1 →
      Fib.main pins depth argv =
        (if f ≤ 0 then some ([.atLeastOne f], -1)
        else if args.pinToCore ≠ 0 ∧ pins 0 = false then some ([.failedToPin 0], -1)
        else some ((if args.pinToCore ≠ 0 then [.pinned 0] else []) ++
          [.computing f, .number f (Fib.printed f.toNat), .fibLog f], 0)) ∧
      (Fib.printed f.toNat = f.toNat.fib ↔ f ≤ 92)

/-- A process was forked in a trial for a role. -/
structure Started (args : Args) (Q : Proc Point Image) (k : Nat) (np f r : Int) (role : Role) :
    Prop where
  trial : TrialOf args np f r
  origin : ∃ p, Q.origin = some (.trial k np f r p) ∧
    (Point.trial k np f r p).forks = some (k, role)

/-- A process that was forked for a program. -/
def StartedFor (args : Args) (Q : Proc Point Image) (img : Image) : Prop :=
  ∃ k np f r role, Started args Q k np f r role ∧ img = args.image np f role

/-- What holds of the variables of the sweep. -/
def CountedAt (args : Args) : Point → Prop
  | .pairs _ np => Value args.minHackbenchPairs args.hackbenchPairsStepSize np
  | .fibs _ np f =>
    Value args.minHackbenchPairs args.hackbenchPairsStepSize np ∧ np ≤ args.maxHackbenchPairs ∧
      Value args.minFibNumber args.fibNumberStepSize f
  | .reps _ np f r =>
    Value args.minHackbenchPairs args.hackbenchPairsStepSize np ∧ np ≤ args.maxHackbenchPairs ∧
      Value args.minFibNumber args.fibNumberStepSize f ∧ f ≤ args.maxFibNumber ∧ 0 ≤ r
  | .trial _ np f r _ => TrialOf args np f r
  | .done => True

/-- The invariant of a process: it counts as the sweep does, and executes only what it was forked
for. -/
structure AsAsked (args : Args) (Q : Proc Point Image) : Prop where
  counted : ∀ l, Q.life = .code l → CountedAt args l
  execl : ∀ l img l', Q.life = .code l → main args l = .execl img l' → StartedFor args Q img
  image : ∀ img, Q.life = .image img → StartedFor args Q img

section
variable {args : Args} {s s' : Procs} {q ret lo step i np f r : Int} {k : Nat} {role : Role}
  {e : Event} {Q Q' : Proc Point Image} {l l' : Point} {img : Image} {argv : List (List Char)}

/-! ## The arguments -/

/-- `atoi` reads an `int`. -/
theorem isInt_toInt (i : Int32) : IsInt i.toInt := ⟨i.le_toInt, i.toInt_lt⟩

theorem mainArgs_areInts (h : mainArgs argv = some args) : args.AreInts := by
  unfold mainArgs at h
  split at h <;> cases h
  constructor <;> exact isInt_toInt _

/-! ## The sweep -/

theorem Value.first (h : IsInt lo) : Value lo step lo := ⟨h, 0, by simp⟩

/-- The next value, where it is an `int`. -/
theorem Value.next (h : Value lo step i) (hint : IsInt (i + step)) : Value lo step (i + step) := by
  obtain ⟨-, n, rfl⟩ := h
  refine ⟨hint, n + 1, ?_⟩
  push_cast
  ring

/-- A step of the sweep that neither forks nor waits counts on. -/
theorem CountedAt.goes {n : Nat} (hints : args.AreInts) (h : CountedAt args l)
    (hg : Goes n ret (main args l) l') : CountedAt args l' := by
  cases l with
  | pairs k np =>
    simp only [main] at hg
    split at hg <;> cases hg
    · next hle => exact ⟨h, hle, .first hints.minFibNumber⟩
    · trivial
  | fibs k np f =>
    obtain ⟨hnp, hle, hf⟩ := h
    simp only [main] at hg
    split at hg
    · next hfle =>
      cases hg
      exact ⟨hnp, hle, hf, hfle, le_refl 0⟩
    · split at hg <;> cases hg
      next hint => exact hnp.next hint
  | reps k np f r =>
    obtain ⟨hnp, hle, hf, hfle, h0⟩ := h
    simp only [main] at hg
    split at hg
    · next hlt =>
      cases hg
      exact ⟨hnp, hle, hf, hfle, h0, hlt⟩
    · split at hg <;> cases hg
      next hint => exact ⟨hnp, hle, hf.next hint⟩
  | trial k np f r p =>
    cases main_flow hg with
    | rep =>
      obtain ⟨hnp, hle, hf, hfle, h0, -⟩ : TrialOf args np f r := h
      exact ⟨hnp, hle, hf, hfle, by omega⟩
    | run => exact h
  | done => cases hg

/-- A fork and a wait stay in their trial. -/
theorem CountedAt.fork {g : Int → Point} (h : CountedAt args l) (hc : main args l = .fork g)
    (pid : Int) : CountedAt args (g pid) := by
  obtain ⟨n, role, hf⟩ := main_fork hc
  cases hf <;> exact h

theorem CountedAt.wait {g : Int → Point} (h : CountedAt args l) (hc : main args l = .wait g)
    (pid : Int) : CountedAt args (g pid) := by
  cases main_wait hc <;> exact h

/-! ## The processes -/

/-- A process stays the one that was forked. -/
theorem StartedFor.before (h : StartedFor args Q img) (hb : Before Q Q') :
    StartedFor args Q' img := by
  obtain ⟨k, np, f, r, role, ⟨htrial, p, horigin, hforks⟩, himg⟩ := h
  exact ⟨k, np, f, r, role, ⟨htrial, p, hb.origin.trans horigin, hforks⟩, himg⟩

/-- A process that has gone on in the sweep executes nothing. -/
theorem AsAsked.of_code (hl : Q.life = .code l) (hc : CountedAt args l) (hx : ¬ AtExecl l) :
    AsAsked args Q where
  counted l' hl' := by
    cases hl.symm.trans hl'
    exact hc
  execl l' img k hl' hexec := by
    cases hl.symm.trans hl'
    exact absurd (main_execl hexec).1 hx
  image img himg := by cases hl.symm.trans himg

/-- A process that was just forked is about to execute the program of its trial. -/
theorem asAsked_fork {g : Int → Point} {t : Nat} (h : CountedAt args l)
    (hc : main args l = .fork g) : AsAsked args ⟨q, some l, t, .code (g 0)⟩ where
  counted l' hl' := by
    cases hl'
    exact h.fork hc 0
  execl l' img l'' hl' hexec := by
    obtain ⟨k, role, hf⟩ := main_fork hc
    cases hl'
    cases hf with
    | hackbench k np f r =>
      cases hexec
      exact ⟨k, np, f, r, .hackbench, ⟨h, _, rfl, rfl⟩, rfl⟩
    | fib k np f r h₀ =>
      cases hexec
      exact ⟨k, np, f, r, .testProg, ⟨h, _, rfl, rfl⟩, rfl⟩
  image img himg := by cases himg

/-- Every step keeps the invariant of every process. -/
theorem asAsked_step (hints : args.AreInts)
    (h : ∀ q Q, s.procs.lookup q = some Q → AsAsked args Q)
    (hs : s.step (main args) e = some s') (hQ' : s'.procs.lookup q = some Q') :
    AsAsked args Q' := by
  cases hlife : Q'.life with
  | code l' =>
    cases step_arrives hs hQ' hlife with
    | same _ hP => exact h q _ hP
    | goes _ hP hl hg =>
      exact .of_code hlife (((h q _ hP).counted _ hl).goes hints hg) (main_flow hg).not_atExecl
    | forkFailed _ hP hl hc hl' =>
      obtain ⟨k, role, hf⟩ := main_fork hc
      subst hl'
      exact .of_code hlife (((h q _ hP).counted _ hl).fork hc _) (hf.not_atExecl (by decide))
    | forked _ hP hl hc hl' h0 =>
      obtain ⟨k, role, hf⟩ := main_fork hc
      subst hl'
      exact .of_code hlife (((h q _ hP).counted _ hl).fork hc _) (hf.not_atExecl h0.ne')
    | noChild _ hP hl hc hl' | reaped _ hP hl hc hl' =>
      subst hl'
      refine .of_code hlife (((h q _ hP).counted _ hl).wait hc _) ?_
      cases main_wait hc <;> rintro ⟨⟩
    | born _ hP hl hc _ _ _ hP' =>
      subst hP'
      exact asAsked_fork ((h _ _ hP).counted _ hl) hc
  | image img =>
    have hstarted : StartedFor args Q' img := by
      rcases step_image hs hQ' hlife with hP | ⟨P, l, l', hP, hl, hc⟩
      · exact (h q _ hP).image img hlife
      · obtain ⟨Q'', hQ'', hb⟩ := step_before hs hP
        cases hQ''.symm.trans hQ'
        exact ((h q P hP).execl l img l' hl hc).before hb
    refine ⟨fun l hl => ?_, fun l img' l' hl => ?_, fun img' himg => ?_⟩
    · cases hlife.symm.trans hl
    · cases hlife.symm.trans hl
    · cases hlife.symm.trans himg
      exact hstarted
  | zombie | reaped =>
    refine ⟨fun l hl => ?_, fun l img' l' hl => ?_, fun img' himg => ?_⟩
    · cases hlife.symm.trans hl
    · cases hlife.symm.trans hl
    · cases hlife.symm.trans himg

theorem asAsked_start (hints : args.AreInts) (hQ : (start args).procs.lookup q = some Q) :
    AsAsked args Q := by
  obtain ⟨-, rfl⟩ := lookup_init hQ
  refine .of_code (l := .pairs 0 args.minHackbenchPairs) rfl
    (Value.first hints.minHackbenchPairs) ?_
  rintro ⟨⟩

/-! ## The programs -/

/-- fib reads the arguments of a trial. -/
theorem understood_fib (hf : IsInt f) :
    Understood args np f ((fibImage args f).argv.map String.toList) .testProg := by
  intro pins depth hd hle
  have hnumber : (atoi (toString f).toList).toInt = f := by
    rw [atoi_toString hf]
    exact Int32.toInt_ofInt_of_le hf.1 hf.2
  have hcore : (atoi (if args.pinToCore ≠ 0 then "0" else "-1").toList).toInt =
      if args.pinToCore ≠ 0 then 0 else -1 := by
    split <;> decide
  have hmain := Fib.main_eq pins "fib".toList (toString f).toList
    (if args.pinToCore ≠ 0 then "0" else "-1").toList hd (by rwa [hnumber])
  rw [hnumber, hcore] at hmain
  refine ⟨hmain.trans ?_, Fib.printed_eq_iff.trans (by omega)⟩
  by_cases hpin : args.pinToCore = 0 <;> simp [hpin]

/-- In every run of the toy launcher and of what its children have become, each process that
executes a program was forked for it in a trial that the command line asks for, and the program
reads its arguments. -/
theorem programs_started (hargs : mainArgs argv = some args)
    (h : Reach (Sys.step (main args)) Free (start args) s) (hQ : s.procs.lookup q = some Q)
    (himg : Q.life = .image img) :
    ∃ k np f r role, Started args Q k np f r role ∧ img = args.image np f role ∧
      Understood args np f (img.argv.map String.toList) role := by
  have hints := mainArgs_areInts hargs
  have hall : ∀ q Q, s.procs.lookup q = some Q → AsAsked args Q :=
    h.invariant (I := fun s => ∀ q Q, s.procs.lookup q = some Q → AsAsked args Q)
      (fun _ _ => asAsked_start hints) fun _ _ _ hi _ hs _ _ => asAsked_step hints hi hs
  obtain ⟨k, np, f, r, role, hst, rfl⟩ := (hall q Q hQ).image img himg
  refine ⟨k, np, f, r, role, hst, rfl, ?_⟩
  cases role with
  | hackbench => exact ToyHackbench.processOptions_hackbenchImage args hst.trial.pairs.1
  | testProg => exact understood_fib hst.trial.fib.1

end

/-- The launcher with the arguments `1 1 1 93 93 1 1 2`, up to the `execl` of its first hackbench:
hackbench is not pinned. -/
theorem programs_started_pinTwo : ∃ args s Q img,
    mainArgs (["launcher", "1", "1", "1", "93", "93", "1", "1", "2"].map String.toList) =
      some args ∧
    exec (Sys.step (main args)) Free (start args)
      [.call 1 0, .call 1 0, .call 1 0, .call 1 2, .call 2 0] = some s ∧
    s.procs.lookup 2 = some Q ∧ Q.life = .image img ∧
    ∃ k np f r role, Started args Q k np f r role ∧ img = args.image np f role ∧
      Understood args np f (img.argv.map String.toList) role := by
  have hargs : mainArgs (["launcher", "1", "1", "1", "93", "93", "1", "1", "2"].map
      String.toList) = some { minFibNumber := 93, maxFibNumber := 93, pinToCore := 2 } := by
    rfl
  exact ⟨_, _, _, _, hargs, rfl, rfl, rfl, programs_started (q := 2) hargs
    (.of_exec [.call 1 0, .call 1 0, .call 1 0, .call 1 2, .call 2 0] rfl) rfl rfl⟩

end Toy
