import SchedulerComparison.Lib.ProcessSteps

/-!
# What a process does on its own

A process that is in the table from the start moves only by its own calls, whatever the other
processes do. `Successor` says where a call takes it, as a parent. A `Plan` gives, for each control
point, what the process still enters behind it, and a bound on the calls it still makes;
`Plan.performs` turns the conditions on single calls into a statement about all runs.
-/

open Transition Posix.Sys

namespace Posix

section
variable {L Img Out α : Type}

/-- A call at `l` can take a process, which is not the child of its own fork, to `l'`. -/
inductive Successor (code : L → Call L Img Out) (l l' : L) : Prop
  | goes {n : Nat} {ret : Int} (hg : Goes n ret (code l) l')
  | fork {k : Int → L} {pid : Int} (hc : code l = .fork k) (h0 : pid ≠ 0) (hl : l' = k pid)
  | wait {k : Int → L} {pid : Int} (hc : code l = .wait k) (hl : l' = k pid)

section
variable {code : L → Call L Img Out} {l l' k : L}

theorem Successor.eq_of_skip (h : Successor code l l') (hc : code l = .skip k) : l' = k := by
  cases h with
  | goes hg => rw [hc] at hg; cases hg; rfl
  | fork hf => cases hc.symm.trans hf
  | wait hw => cases hc.symm.trans hw

theorem Successor.eq_of_print {out : Out} (h : Successor code l l') (hc : code l = .print out k) :
    l' = k := by
  cases h with
  | goes hg => rw [hc] at hg; cases hg; rfl
  | fork hf => cases hc.symm.trans hf
  | wait hw => cases hc.symm.trans hw

theorem Successor.ne_exit {status : Int} (h : Successor code l l') : code l ≠ .exit status := by
  intro hc
  cases h with
  | goes hg => rw [hc] at hg; cases hg
  | fork hf => cases hc.symm.trans hf
  | wait hw => cases hc.symm.trans hw

theorem Successor.ne_undefined (h : Successor code l l') : code l ≠ .undefined := by
  intro hc
  cases h with
  | goes hg => rw [hc] at hg; cases hg
  | fork hf => cases hc.symm.trans hf
  | wait hw => cases hc.symm.trans hw

end

/-- What a call prints. -/
def Call.prints : Call L Img Out → Option Out
  | .print out _ => some out
  | _ => none

namespace Sys

theorem lookup_init_self {p : Int} {l : L} :
    (Sys.init p l : Sys L Img Out).procs.lookup p = some ⟨0, none, 0, .code l⟩ := by
  rw [Sys.init, ← AList.insert_empty]
  exact AList.lookup_insert _

/-- What process `p` has printed, in order. -/
def printedBy (p : Int) (s : Sys L Img Out) : List Out :=
  s.printed.filterMap fun line => if line.pid = p then some line.out else none

/-- What process `p` has entered with its calls, in order, where `enters` says what is entered with
the call at a control point. -/
def entered (enters : L → Option α) (p : Int) (s : Sys L Img Out) : List α :=
  (s.callsOf p).filterMap fun call => enters call.point

variable {code : L → Call L Img Out} {s s' : Sys L Img Out} {p : Int} {P : Proc L Img} {e : Event}
  {l l' : L} {enters : L → Option α}

/-- A process of the table is where it was, or its own call took it there. -/
theorem step_successor (hs : s.step code e = some s') (hP : s.procs.lookup p = some P)
    (hl' : s'.point? p = some l') :
    ((∀ ret, e ≠ .call p ret) ∧ s.point? p = some l') ∨
      ∃ ret l, e = .call p ret ∧ s.point? p = some l ∧ Successor code l l' := by
  obtain ⟨P', hP', hl'⟩ := point?_eq_some.1 hl'
  cases step_arrives hs hP' hl' with
  | same he hP => exact .inl ⟨he, point?_eq_some.2 ⟨_, hP, hl'⟩⟩
  | goes he hP hl hg => exact .inr ⟨_, _, he, point?_eq_some.2 ⟨_, hP, hl⟩, .goes hg⟩
  | forkFailed he hP hl hc hk =>
    exact .inr ⟨_, _, he, point?_eq_some.2 ⟨_, hP, hl⟩, .fork hc (by decide) hk⟩
  | forked he hP hl hc hk h0 =>
    exact .inr ⟨_, _, he, point?_eq_some.2 ⟨_, hP, hl⟩, .fork hc h0.ne' hk⟩
  | noChild he hP hl hc hk | reaped he hP hl hc hk =>
    exact .inr ⟨_, _, he, point?_eq_some.2 ⟨_, hP, hl⟩, .wait hc hk⟩
  | born _ _ _ _ _ _ hn => cases hn.symm.trans hP

/-- What a call of process `p` prints is added to what it has printed. -/
theorem step_printedBy (hs : s.step code e = some s') (p : Int) :
    (s'.printedBy p = s.printedBy p ∧ ∀ ret, e ≠ .call p ret) ∨
      ∃ ret l, e = .call p ret ∧ s.point? p = some l ∧
        s'.printedBy p = s.printedBy p ++ (code l).prints.toList := by
  by_cases he : ∃ ret, e = .call p ret
  · obtain ⟨ret, rfl⟩ := he
    obtain ⟨P, l, s₁, hP, hl, hcall, -⟩ := step_call hs
    refine .inr ⟨ret, l, rfl, point?_eq_some.2 ⟨P, hP, hl⟩, ?_⟩
    rcases step_printed hs with hpr | ⟨q, ret', P', l', out, k, heq, hP', hl', hc, hpr, -⟩
    · have hnone : (code l).prints = none := by
        cases hc : code l with
        | print out k =>
          -- the line would be in the output
          obtain ⟨s'', hs'', -, hpr'⟩ := step_of_print ret hP hl hc
          cases hs.symm.trans hs''
          exact absurd (hpr.symm.trans hpr') (by simp)
        | _ => rfl
      rw [printedBy, hpr, hnone, Option.toList_none, List.append_nil, printedBy]
    · cases heq
      cases hP.symm.trans hP'
      cases hl.symm.trans hl'
      rw [printedBy, hpr, List.filterMap_append, hc, printedBy]
      simp [Call.prints]
  · refine .inl ⟨?_, fun ret h => he ⟨ret, h⟩⟩
    rcases step_printed hs with hpr | ⟨q, ret, P, l, out, k, rfl, -, -, -, hpr, -⟩
    · rw [printedBy, hpr, printedBy]
    · have hqp : q ≠ p := fun h => he ⟨ret, h ▸ rfl⟩
      rw [printedBy, hpr, List.filterMap_append, printedBy]
      simp [hqp]

/-- What a call of process `p` enters is added to what it has entered. -/
theorem step_entered (enters : L → Option α) (hs : s.step code e = some s') (p : Int) :
    (s'.entered enters p = s.entered enters p ∧ ∀ ret, e ≠ .call p ret) ∨
      ∃ ret l, e = .call p ret ∧ s.point? p = some l ∧
        s'.entered enters p = s.entered enters p ++ (enters l).toList := by
  rcases step_callsOf hs p with ⟨hcalls, hne⟩ | ⟨ret, l, he, hl, hcalls⟩
  · exact .inl ⟨by rw [entered, hcalls, entered], hne⟩
  · refine .inr ⟨ret, l, he, hl, ?_⟩
    rw [entered, hcalls, List.filterMap_append, entered]
    cases h : enters l <;> simp [h]

end Sys

/-- In every run from `s₀`, what process `p` has entered is a prefix of `items`, and all of them
when it is at `done`; it is never at a step without a meaning, and makes a bounded number of
calls. -/
structure Performs (code : L → Call L Img Out) (s₀ : Sys L Img Out) (p : Int)
    (enters : L → Option α) (items : List α) (done : L) : Prop where
  isPrefix : ∀ s, Reach (Sys.step code) Free s₀ s → s.entered enters p <+: items
  complete : ∀ s, Reach (Sys.step code) Free s₀ s → s.point? p = some done →
    s.entered enters p = items
  defined : ∀ s, Reach (Sys.step code) Free s₀ s → ∀ l, s.point? p = some l → code l ≠ .undefined
  bounded : ∃ n, ∀ es s, Transition.exec (Sys.step code) Free s₀ es = some s →
    (es.countP fun e => (e.returns? p).isSome) ≤ n

/-- What a process enters behind a control point and a bound on its calls, at the control points
where it can be. -/
structure Plan (code : L → Call L Img Out) (enters : L → Option α) where
  at_ : L → Prop
  rest : L → List α
  bound : L → Nat
  step : ∀ {l l'}, at_ l → Successor code l l' → at_ l' ∧ bound l' < bound l
  defined : ∀ {l}, at_ l → code l ≠ .undefined
  rest_eq : ∀ {l l'}, at_ l → Successor code l l' → rest l = (enters l').toList ++ rest l'

namespace Plan

variable {code : L → Call L Img Out} {enters : L → Option α} {s s' : Sys L Img Out} {p : Int}
  {e : Event} {l l' : L}

/-- What a process still enters at a control point, with the call that it is about to make. -/
def todo (plan : Plan code enters) (l : L) : List α := (enters l).toList ++ plan.rest l

/-- Where the process is, and what it has entered and still enters. -/
structure Inv (plan : Plan code enters) (p : Int) (items : List α) (s : Sys L Img Out) : Prop where
  inTable : ∃ P, s.procs.lookup p = some P
  isPrefix : s.entered enters p <+: items
  at_ : ∀ l, s.point? p = some l → plan.at_ l
  rest : ∀ l, s.point? p = some l → s.entered enters p ++ plan.todo l = items

/-- The calls and the end that the process may still have. -/
def budget (plan : Plan code enters) (p : Int) (s : Sys L Img Out) : Nat :=
  match (s.procs.lookup p).map Proc.life with
  | some (.code l) => plan.bound l + 2
  | some (.image _) => 1
  | _ => 0

theorem budget_code (plan : Plan code enters) {P : Proc L Img} (hP : s.procs.lookup p = some P)
    (hl : P.life = .code l) : plan.budget p s = plan.bound l + 2 := by
  simp [budget, hP, hl]

/-- An event of another process leaves the budget, or ends the process. -/
theorem budget_of_ne (plan : Plan code enters) {P : Proc L Img} (hP : s.procs.lookup p = some P)
    (hs : s.step code e = some s') (hne : e.pid ≠ p) : plan.budget p s' ≤ plan.budget p s := by
  obtain ⟨P', hP', -⟩ := step_before hs hP
  cases hr : P'.life.isRunning with
  | true =>
    rcases step_running_of_ne hs hne hP' hr with hsame | hnone
    · simp only [budget, hP', hsame, le_refl]
    · cases hnone.symm.trans hP
  | false =>
    have hzero : plan.budget p s' = 0 := by
      simp only [budget, hP', Option.map_some]
      cases h : P'.life <;> simp_all [Life.isRunning]
    omega

/-- An event of the process takes from its budget. -/
theorem budget_of_eq (plan : Plan code enters) (hat : ∀ l, s.point? p = some l → plan.at_ l)
    (hs : s.step code e = some s') (he : e.pid = p) (hm : e.moves = true) :
    plan.budget p s' < plan.budget p s := by
  by_cases hcall : ∃ q ret, e = .call q ret
  · obtain ⟨q, ret, rfl⟩ := hcall
    obtain rfl : q = p := he
    obtain ⟨P, l, s₁, hP, hl, -, -⟩ := step_call hs
    have hpt : s.point? q = some l := point?_eq_some.2 ⟨P, hP, hl⟩
    obtain ⟨P', hP', -⟩ := step_before hs hP
    rw [plan.budget_code hP hl]
    cases hl' : P'.life with
    | code l' =>
      rw [plan.budget_code hP' hl']
      rcases step_successor hs hP (point?_eq_some.2 ⟨P', hP', hl'⟩) with
        ⟨hne, -⟩ | ⟨-, l₀, -, hl₀, hsucc⟩
      · exact absurd rfl (hne ret)
      · cases hpt.symm.trans hl₀
        have := (plan.step (hat l hpt) hsucc).2
        omega
    | image img => simp [budget, hP', hl']
    | zombie | reaped => simp [budget, hP', hl']
  · rcases step_end hs fun q ret h => hcall ⟨q, ret, h⟩ with
      ⟨P, img, st, -, hP, hrun, rfl⟩ | ⟨time, rfl, -, rfl⟩
    · subst he
      have hzero : plan.budget e.pid ((s.live e.pid P (.zombie img st s.clock)).tick []) = 0 := by
        simp [budget]
      rw [hzero]
      simp only [budget, hP, Option.map_some]
      cases h : P.life <;> simp_all [Life.isRunning]
    · cases hm

/-- A step keeps the invariant. -/
theorem inv_step (plan : Plan code enters) {items : List α} (h : plan.Inv p items s)
    (hs : s.step code e = some s') : plan.Inv p items s' := by
  obtain ⟨P, hP⟩ := h.inTable
  obtain ⟨P', hP', -⟩ := step_before hs hP
  have hat : ∀ l', s'.point? p = some l' → plan.at_ l' := by
    intro l' hl'
    rcases step_successor hs hP hl' with ⟨-, hl⟩ | ⟨-, l, -, hl, hsucc⟩
    · exact h.at_ l' hl
    · exact (plan.step (h.at_ l hl) hsucc).1
  rcases step_entered enters hs p with ⟨hent, hne⟩ | ⟨ret, l, rfl, hl, hent⟩
  · refine ⟨⟨P', hP'⟩, hent ▸ h.isPrefix, hat, fun l' hl' => ?_⟩
    rcases step_successor hs hP hl' with ⟨-, hl⟩ | ⟨ret, -, he, -⟩
    · rw [hent, h.rest l' hl]
    · exact absurd he (hne ret)
  · -- the process makes a call: what it enters comes off what is to do
    have hrest : s'.entered enters p ++ plan.rest l = items := by
      rw [hent, List.append_assoc]
      exact h.rest l hl
    refine ⟨⟨P', hP'⟩, ⟨_, hrest⟩, hat, fun l' hl' => ?_⟩
    rcases step_successor hs hP hl' with ⟨hne, -⟩ | ⟨-, l₀, -, hl₀, hsucc⟩
    · exact absurd rfl (hne ret)
    · cases hl.symm.trans hl₀
      rw [← hrest, plan.rest_eq (h.at_ l hl) hsucc, todo]

/-- At the start of the program everything is still to do. -/
theorem inv_init (plan : Plan code enters) {l₀ : L} (h₀ : plan.at_ l₀) :
    plan.Inv p (plan.todo l₀) (Sys.init p l₀ : Sys L Img Out) := by
  have hpt : (Sys.init p l₀ : Sys L Img Out).point? p = some l₀ :=
    point?_eq_some.2 ⟨_, lookup_init_self, rfl⟩
  refine ⟨⟨_, lookup_init_self⟩, List.nil_prefix, fun l hl => ?_, fun l hl => ?_⟩
  · cases hpt.symm.trans hl
    exact h₀
  · cases hpt.symm.trans hl
    rfl

/-- A process that follows a plan from the start of the program performs it. -/
theorem performs (plan : Plan code enters) {l₀ done : L} (h₀ : plan.at_ l₀)
    (hdone : plan.todo done = []) :
    Performs code (Sys.init p l₀ : Sys L Img Out) p enters (plan.todo l₀) done := by
  have hinit : plan.Inv p (plan.todo l₀) (Sys.init p l₀ : Sys L Img Out) := plan.inv_init h₀
  have hinv : ∀ s, Reach (Sys.step code) Free (Sys.init p l₀ : Sys L Img Out) s →
      plan.Inv p (plan.todo l₀) s :=
    fun s hr => hr.invariant hinit fun _ _ _ h _ hs => plan.inv_step h hs
  refine ⟨fun s hr => (hinv s hr).isPrefix, fun s hr hl => ?_,
    fun s hr l hl => plan.defined ((hinv s hr).at_ l hl), plan.budget p (Sys.init p l₀), ?_⟩
  · rw [← (hinv s hr).rest done hl, hdone, List.append_nil]
  · intro es s hex
    refine exec_kind_le (I := plan.Inv p (plan.todo l₀)) (plan.budget p) _
      (fun s e s' h _ hs => ⟨plan.inv_step h hs, ?_⟩) es hinit hex
    obtain ⟨P, hP⟩ := h.inTable
    by_cases he : e.pid = p ∧ e.moves = true
    · have := plan.budget_of_eq h.at_ hs he.1 he.2
      split <;> omega
    · have hret : e.returns? p = none := by
        cases e with
        | call q ret => exact if_neg fun hq => he ⟨hq, rfl⟩
        | _ => rfl
      have hle : plan.budget p s' ≤ plan.budget p s := by
        by_cases hpid : e.pid = p
        · cases e with
          | pass time =>
            rcases step_end hs (fun _ _ => nofun) with ⟨_, _, _, hm, -⟩ | ⟨_, -, -, rfl⟩
            · cases hm
            · exact le_refl _
          | _ => exact absurd ⟨hpid, rfl⟩ he
        · exact plan.budget_of_ne hP hs hpid
      rw [hret]
      exact hle

end Plan

end

end Posix
