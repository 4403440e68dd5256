import Mathlib.Algebra.Order.BigOperators.Group.Finset
import SchedulerComparison.Lib.Plan

/-!
# The work of all processes

`Sys.work w` adds up what the processes of the table have left to do, where `w` says it for one of
them. An event that takes from the work of its process more than it gives to the child that it forks
takes from the whole (`Sys.step_work`). `Plan.run_length_le` puts this together with a plan: when
one process follows a plan, and the children that it forks neither fork nor wait and come nearer to
their end with every call, then every run is of bounded length, whatever order the events come in.
-/

open Transition

namespace Posix

section
variable {L Img Out α : Type}

namespace Sys

/-- What process `q` has left to do. -/
def workOf (w : Int → Life L Img → Nat) (s : Sys L Img Out) (q : Int) : Nat :=
  ((s.procs.lookup q).map fun Q => w q Q.life).getD 0

/-- What all processes have left to do. -/
def work (w : Int → Life L Img → Nat) (s : Sys L Img Out) : Nat :=
  ∑ q ∈ s.procs.keys.toFinset, s.workOf w q

variable {s s' : Sys L Img Out} {w : Int → Life L Img → Nat} {p q c : Int} {P Q C : Proc L Img}
  {code : L → Call L Img Out} {e : Event}

theorem workOf_eq (h : s.procs.lookup q = some Q) : s.workOf w q = w q Q.life := by
  rw [workOf, h, Option.map_some, Option.getD_some]

theorem workOf_eq_zero (h : s.procs.lookup q = none) : s.workOf w q = 0 := by
  rw [workOf, h, Option.map_none, Option.getD_none]

/-- The work, over any set of pids with those of the table in it. -/
theorem work_eq_sum {K : Finset Int} (hK : s.procs.keys.toFinset ⊆ K) :
    s.work w = ∑ q ∈ K, s.workOf w q := by
  refine Finset.sum_subset hK fun q _ hq => workOf_eq_zero ?_
  exact AList.lookup_eq_none.2 fun hmem => hq (List.mem_toFinset.2 (AList.mem_keys.1 hmem))

/-- When only two processes change, so does the work of these. -/
theorem work_pair (hne : p ≠ c)
    (ho : ∀ q ≠ p, q ≠ c → s'.procs.lookup q = s.procs.lookup q) :
    s'.work w + (s.workOf w p + s.workOf w c) = s.work w + (s'.workOf w p + s'.workOf w c) := by
  let K : Finset Int := insert p (insert c (s.procs.keys.toFinset ∪ s'.procs.keys.toFinset))
  have hK : s.procs.keys.toFinset ⊆ K := fun q hq => by simp [K, List.mem_toFinset.1 hq]
  have hK' : s'.procs.keys.toFinset ⊆ K := fun q hq => by simp [K, List.mem_toFinset.1 hq]
  have hp : p ∈ K := Finset.mem_insert_self _ _
  have hc : c ∈ K.erase p :=
    Finset.mem_erase.2 ⟨hne.symm, Finset.mem_insert_of_mem (Finset.mem_insert_self _ _)⟩
  have hrest : ∑ q ∈ (K.erase p).erase c, s'.workOf w q =
      ∑ q ∈ (K.erase p).erase c, s.workOf w q := by
    refine Finset.sum_congr rfl fun q hq => ?_
    obtain ⟨hqc, hq⟩ := Finset.mem_erase.1 hq
    rw [workOf, workOf, ho q (Finset.mem_erase.1 hq).1 hqc]
  rw [work_eq_sum hK, work_eq_sum hK', ← Finset.add_sum_erase K (s.workOf w) hp,
    ← Finset.add_sum_erase K (s'.workOf w) hp, ← Finset.add_sum_erase (K.erase p) (s.workOf w) hc,
    ← Finset.add_sum_erase (K.erase p) (s'.workOf w) hc, hrest]
  omega

/-- When only one process changes, so does its work. -/
theorem work_own (ho : ∀ q ≠ p, s'.procs.lookup q = s.procs.lookup q) :
    s'.work w + s.workOf w p = s.work w + s'.workOf w p := by
  have hne : p ≠ p + 1 := by omega
  have hpair := work_pair (w := w) hne fun q hq _ => ho q hq
  have hc : s'.workOf w (p + 1) = s.workOf w (p + 1) := by
    rw [workOf, workOf, ho _ hne.symm]
  omega

/-- The work is a matter of the table. -/
theorem work_of_procs (h : s'.procs = s.procs) : s'.work w = s.work w := by
  unfold work workOf
  rw [h]

/-- The passing of time leaves the work. -/
theorem step_work_pass (hs : s.step code e = some s') (hm : e.moves = false) :
    s'.work w = s.work w := by
  cases e with
  | pass time =>
    rcases step_end hs (fun _ _ => nofun) with ⟨_, _, _, hm, -⟩ | ⟨_, -, -, rfl⟩
    · cases hm
    · rfl
  | call | exit | term => cases hm

/-- The work drops by `d` at an event that takes so much from the work of its process, and more by
what it gives to a child, when it costs nothing to be waited for. -/
theorem step_work (d : Nat) (hs : s.step code e = some s')
    (hreap : ∀ q img st t t', w q (.reaped img st t t') = w q (.zombie img st t))
    (hown : s'.workOf w e.pid + d ≤ s.workOf w e.pid)
    (hfork : ∀ c, s.procs.lookup c = none → s'.procs.lookup c ≠ none →
      s'.workOf w e.pid + s'.workOf w c + d ≤ s.workOf w e.pid) : s'.work w + d ≤ s.work w := by
  cases step_change hs with
  | pass hsame =>
    have hwork := work_of_procs (w := w) hsame
    have hof : s'.workOf w e.pid = s.workOf w e.pid := by rw [workOf, workOf, hsame]
    omega
  | own _ _ _ _ ho =>
    have := work_own (w := w) ho
    omega
  | @fork _ C _ c hp _ _ hc _ _ _ hc' ho =>
    have hne : e.pid ≠ c := by
      rintro rfl
      cases hp.symm.trans hc
    have hpair := work_pair (w := w) hne ho
    have hle := hfork c hc (by rw [hc']; nofun)
    rw [workOf_eq_zero hc] at hpair
    omega
  | @wait P x c o f t img st hp hr _ hc _ hc' ho =>
    have hne : e.pid ≠ c := by
      rintro rfl
      cases hp.symm.trans hc
      cases hr
    have hpair := work_pair (w := w) hne ho
    have hsame : s'.workOf w c = s.workOf w c := by rw [workOf_eq hc, workOf_eq hc', hreap]
    omega

end Sys

/-! ## Runs of bounded length -/

/-- The events that a process may still have, when a bound on its calls is known at each control
point. -/
def Life.budget (bound : L → Nat) : Life L Img → Nat
  | .code l => bound l + 2
  | .image _ => 1
  | _ => 0

/-- The control points of children that neither fork nor wait, with a bound `cost` on the calls that
are left at each of them, which is at most `most` where they are forked. -/
structure ShortChildren (code : L → Call L Img Out) (child : L → Prop) (cost : L → Nat)
    (most : Nat) : Prop where
  goes : ∀ {l l' n ret}, child l → Sys.Goes n ret (code l) l' → child l' ∧ cost l' < cost l
  not_fork : ∀ {l k}, child l → code l ≠ .fork k
  not_wait : ∀ {l k}, child l → code l ≠ .wait k
  born : ∀ {l k}, code l = .fork k → child (k 0) ∧ cost (k 0) ≤ most

namespace ShortChildren

variable {code : L → Call L Img Out} {child : L → Prop} {cost : L → Nat} {most : Nat}
  {s s' : Sys L Img Out} {root : Int} {e : Event}

/-- The processes other than `root` are at the control points of children. -/
def At (child : L → Prop) (root : Int) (s : Sys L Img Out) : Prop :=
  ∀ q Q l, q ≠ root → s.procs.lookup q = some Q → Q.life = .code l → child l

/-- Every event leaves the children where a child can be. -/
theorem at_step (hc : ShortChildren code child cost most) (h : At child root s)
    (hs : s.step code e = some s') : At child root s' := by
  intro q Q' l' hq hQ' hl'
  cases Sys.step_arrives hs hQ' hl' with
  | same _ hQ => exact h q Q' l' hq hQ hl'
  | goes _ hQ hl hg => exact (hc.goes (h q _ _ hq hQ hl) hg).1
  | forkFailed _ hQ hl hf | forked _ hQ hl hf =>
    exact absurd hf (hc.not_fork (h q _ _ hq hQ hl))
  | noChild _ hQ hl hw | reaped _ hQ hl hw =>
    exact absurd hw (hc.not_wait (h q _ _ hq hQ hl))
  | born _ _ _ hf hl₀ => exact hl₀ ▸ (hc.born hf).1

/-- An event of a child takes from what it has left. -/
theorem budget_lt (hc : ShortChildren code child cost most) (h : At child root s)
    (hs : s.step code e = some s') (he : e.pid ≠ root) (hm : e.moves = true) {P P' : Proc L Img}
    (hP : s.procs.lookup e.pid = some P) (hP' : s'.procs.lookup e.pid = some P') :
    P'.life.budget cost < P.life.budget cost := by
  by_cases hcall : ∃ q ret, e = .call q ret
  · obtain ⟨q, ret, rfl⟩ := hcall
    obtain ⟨P₁, l, s₁, hP₁, hl, hres, rfl⟩ := Sys.step_call hs
    cases hP.symm.trans hP₁
    have hchild := h q P l he hP hl
    cases Sys.call_result hres with
    | goes hg hs₁ =>
      rw [Sys.procs_tick, hs₁] at hP'
      cases hP'.symm.trans Sys.lookup_live_self
      rw [hl]
      exact Nat.add_lt_add_right (hc.goes hchild hg).2 2
    | @leaves x hx hs₁ =>
      rw [Sys.procs_tick, hs₁] at hP'
      cases hP'.symm.trans Sys.lookup_live_self
      have hle : x.budget cost ≤ 1 := by
        generalize code l = d at hx
        cases hx with
        | execl => exact le_refl 1
        | exit | throws => exact Nat.zero_le 1
      rw [hl]
      exact hle.trans_lt (Nat.lt_add_left (cost l) Nat.one_lt_two)
    | forkFailed hf | forked hf => exact absurd hf (hc.not_fork hchild)
    | noChild hw | reaped hw => exact absurd hw (hc.not_wait hchild)
  · rcases Sys.step_end hs fun q ret h => hcall ⟨q, ret, h⟩ with
      ⟨P₁, img, st, -, hP₁, hrun, rfl⟩ | ⟨time, rfl, -, -⟩
    · cases hP.symm.trans hP₁
      cases hP'.symm.trans Sys.lookup_live_self
      cases hlife : P.life with
      | code l => simp only [Life.budget]; omega
      | image img => exact Nat.one_pos
      | zombie | reaped =>
        rw [hlife] at hrun
        cases hrun
    · cases hm

end ShortChildren

namespace Plan

variable {code : L → Call L Img Out} {enters : L → Option α} {s s' : Sys L Img Out} {root : Int}
  {e : Event} {child : L → Prop} {cost : L → Nat} {most : Nat}

/-- What a process has left: the one that follows the plan can fork a child with each call. -/
def weight (plan : Plan code enters) (root : Int) (cost : L → Nat) (most : Nat) (q : Int)
    (x : Life L Img) : Nat :=
  if q = root then (most + 3) * x.budget plan.bound else x.budget cost

theorem workOf_root (plan : Plan code enters) :
    s.workOf (plan.weight root cost most) root = (most + 3) * plan.budget root s := by
  cases h : s.procs.lookup root with
  | none => simp [Sys.workOf_eq_zero h, budget, h]
  | some P =>
    rw [Sys.workOf_eq h, weight, if_pos rfl, budget, h, Option.map_some]
    cases P.life <;> rfl

/-- Every event of a process takes from the work. -/
theorem work_step (plan : Plan code enters) (hc : ShortChildren code child cost most)
    {items : List α} (hi : plan.Inv root items s) (hat : ShortChildren.At child root s)
    (hs : s.step code e = some s') (hm : e.moves = true) :
    s'.work (plan.weight root cost most) < s.work (plan.weight root cost most) := by
  by_cases he : e.pid = root
  · have hlt := plan.budget_of_eq hi.at_ hs he hm
    have hmul : (most + 3) * (plan.budget root s' + 1) ≤ (most + 3) * plan.budget root s :=
      Nat.mul_le_mul_left _ hlt
    rw [Nat.mul_add_one] at hmul
    refine Sys.step_work 1 hs (fun q img st t t' => by simp [weight, Life.budget]) ?_ ?_
    · rw [he, workOf_root, workOf_root]
      omega
    · intro c hnone hsome
      obtain ⟨C, hC⟩ := Option.ne_none_iff_exists'.1 hsome
      obtain ⟨q, Q, l, k, rfl, hq, -, hf, -, rfl⟩ := Sys.step_born hs hnone hC
      have hne : c ≠ root := by
        rintro rfl
        obtain ⟨P, hP⟩ := hi.inTable
        cases hP.symm.trans hnone
      have hborn := (hc.born hf).2
      rw [he, workOf_root, workOf_root, Sys.workOf_eq hC, weight, if_neg hne]
      simp only [Life.budget]
      omega
  · obtain ⟨P, hP, -⟩ := Sys.running_of_moves hs hm
    obtain ⟨P', hP', -⟩ := Sys.step_before hs hP
    refine Sys.step_work 1 hs (fun q img st t t' => by simp [weight, Life.budget]) ?_ ?_
    · rw [Sys.workOf_eq hP, Sys.workOf_eq hP', weight, weight, if_neg he, if_neg he]
      exact hc.budget_lt hat hs he hm hP hP'
    · intro c hnone hsome
      obtain ⟨C, hC⟩ := Option.ne_none_iff_exists'.1 hsome
      obtain ⟨q, Q, l, k, rfl, hq, hl, hf, -, -⟩ := Sys.step_born hs hnone hC
      exact absurd hf (hc.not_fork (hat q Q l he hq hl))

/-- When `root` follows a plan and its children are short, the number of events of processes in a
run is bounded. -/
theorem run_length_le (plan : Plan code enters) (hc : ShortChildren code child cost most) {l₀ : L}
    (h₀ : plan.at_ l₀) (es : List Event)
    (h : exec (Sys.step code) Free (Sys.init root l₀ : Sys L Img Out) es = some s) :
    es.countP Event.moves ≤
      (Sys.init root l₀ : Sys L Img Out).work (plan.weight root cost most) := by
  have hinit : plan.Inv root (plan.todo l₀) (Sys.init root l₀ : Sys L Img Out) := plan.inv_init h₀
  have hat : ShortChildren.At child root (Sys.init root l₀ : Sys L Img Out) :=
    fun q Q l hq hQ _ => absurd (Sys.lookup_init hQ).1 hq
  refine exec_kind_le (I := fun s => plan.Inv root (plan.todo l₀) s ∧
    ShortChildren.At child root s) _ _ (fun s e s' hi _ hs => ⟨⟨plan.inv_step hi.1 hs,
      hc.at_step hi.2 hs⟩, ?_⟩) es ⟨hinit, hat⟩ h
  cases hm : e.moves with
  | true => exact plan.work_step hc hi.1 hi.2 hs hm
  | false => exact (Sys.step_work_pass hs hm).le

end Plan

end

end Posix
