import Mathlib.Algebra.BigOperators.Group.Finset.Piecewise
import Mathlib.Algebra.GroupWithZero.Nat
import Mathlib.Order.WellFounded

/-!
# Runs of an event machine

A machine is a partial function `step : σ → ε → Option σ`: in a state, an event is either
possible and gives the next state, or it is not possible. `Reach step C s₀` holds of the
states that a run from `s₀` reaches when every step of the run meets the condition `C`; a run
of the bare machine is one whose condition is `Free`. `exec` runs a list of events while they
meet a decidable condition, for concrete runs.

`Reach.invariant` is the rule the safety proofs use. `exists_stuck`, `exec_kind_le` and
`exists_final` are the rules for progress: when a measure drops at every step that an invariant
allows, every state reaches one in which no event is possible, and no run is longer than the
measure; and when runs are bounded and can go on until they are at their end, one ends.
-/

namespace Transition

section
variable {σ ε : Type _}

/-- The condition every step meets. -/
def Free (_ : σ) (_ : ε) : Prop := True

instance (s : σ) (e : ε) : Decidable (Free s e) := .isTrue trivial

/-- The state after the events `es`, if they are possible one after the other and meet `C`. -/
def exec (step : σ → ε → Option σ) (C : σ → ε → Prop) [∀ s e, Decidable (C s e)] :
    σ → List ε → Option σ
  | s, [] => some s
  | s, e :: es =>
    match step s e with
    | some s' => if C s e then exec step C s' es else none
    | none => none

/-- A run of several events is its first step and a run of the others. -/
theorem exec_cons_eq_some {step : σ → ε → Option σ} {C : σ → ε → Prop} [∀ s e, Decidable (C s e)]
    {s s' : σ} {e : ε} {es : List ε} : exec step C s (e :: es) = some s' ↔
      ∃ s₁, step s e = some s₁ ∧ C s e ∧ exec step C s₁ es = some s' := by
  rw [exec]
  constructor
  · intro h
    split at h
    · next s₁ hs =>
      split at h
      · next hC => exact ⟨s₁, hs, hC, h⟩
      · cases h
    · cases h
  · rintro ⟨s₁, hs, hC, h⟩
    rw [hs]
    exact (if_pos hC).trans h

/-- The states reached from `s₀` by steps that each meet `C`. -/
inductive Reach (step : σ → ε → Option σ) (C : σ → ε → Prop) (s₀ : σ) : σ → Prop
  | refl : Reach step C s₀ s₀
  | tail {s s' : σ} {e : ε} :
      Reach step C s₀ s → C s e → step s e = some s' → Reach step C s₀ s'

variable {step : σ → ε → Option σ} {C : σ → ε → Prop} {s₀ s s' : σ}

/-- Runs compose. -/
theorem Reach.trans (h : Reach step C s₀ s) (h' : Reach step C s s') : Reach step C s₀ s' := by
  induction h' with
  | refl => exact h
  | tail _ hC hs ih => exact ih.tail hC hs

/-- What holds initially and is kept by every step that meets the condition holds in every
state reached. -/
theorem Reach.invariant {I : σ → Prop} (h0 : I s₀)
    (hstep : ∀ s e s', I s → C s e → step s e = some s' → I s') (h : Reach step C s₀ s) : I s := by
  induction h with
  | refl => exact h0
  | tail _ hC hs ih => exact hstep _ _ _ ih hC hs

/-- A run that meets a condition is a run. -/
theorem Reach.free (h : Reach step C s₀ s) : Reach step Free s₀ s :=
  h.invariant .refl fun _ _ _ hi _ hs => hi.tail trivial hs

/-- A concrete run reaches its last state. -/
theorem Reach.of_exec [∀ s e, Decidable (C s e)] (es : List ε) (h : exec step C s es = some s') :
    Reach step C s s' := by
  induction es generalizing s with
  | nil => cases h; exact .refl
  | cons e es ih =>
    obtain ⟨s₁, hs, hC, h⟩ := exec_cons_eq_some.1 h
    exact (Reach.tail .refl hC hs).trans (ih h)

/-- No event is possible. -/
def Stuck (step : σ → ε → Option σ) (s : σ) : Prop := ∀ e, step s e = none

/-- When a measure drops at every step from a state of the invariant, a stuck state is
reached. -/
theorem exists_stuck {I : σ → Prop} (m : σ → Nat)
    (hstep : ∀ s e s', I s → step s e = some s' → I s' ∧ m s' < m s) (s : σ) (hs : I s) :
    ∃ s', Reach step Free s s' ∧ I s' ∧ Stuck step s' := by
  induction hm : m s using Nat.strongRecOn generalizing s with
  | ind n ih =>
    by_cases hst : Stuck step s
    · exact ⟨s, .refl, hs, hst⟩
    · simp only [Stuck, not_forall] at hst
      obtain ⟨e, he⟩ := hst
      obtain ⟨s₁, h₁⟩ := Option.ne_none_iff_exists'.1 he
      obtain ⟨hI, hlt⟩ := hstep s e s₁ hs h₁
      obtain ⟨s', hr, hI', hst'⟩ := ih (m s₁) (hm ▸ hlt) s₁ hI rfl
      exact ⟨s', (Reach.tail .refl trivial h₁).trans hr, hI', hst'⟩

/-- When a measure drops at the events of a kind and grows by no more than what an event brings, it
bounds with all that is brought how many of them a run has whose steps meet the condition. -/
theorem exec_kind_le_add [∀ s e, Decidable (C s e)] {I : σ → Prop} (m : σ → Nat)
    (kind : ε → Bool) (brings : ε → Nat)
    (hstep : ∀ s e s', I s → C s e → step s e = some s' →
      I s' ∧ m s' + (if kind e then 1 else 0) ≤ m s + brings e) (es : List ε) (hs : I s)
    (h : exec step C s es = some s') : es.countP kind ≤ m s + (es.map brings).sum := by
  induction es generalizing s with
  | nil => exact Nat.zero_le _
  | cons e es ih =>
    obtain ⟨s₁, h₁, hC, h⟩ := exec_cons_eq_some.1 h
    obtain ⟨hI, hle⟩ := hstep s e s₁ hs hC h₁
    have := ih hI h
    rw [List.countP_cons, List.map_cons, List.sum_cons]
    omega

/-- When a measure drops at the events of a kind and never grows, it bounds how many of them a run
has whose steps meet the condition. -/
theorem exec_kind_le [∀ s e, Decidable (C s e)] {I : σ → Prop} (m : σ → Nat) (kind : ε → Bool)
    (hstep : ∀ s e s', I s → C s e → step s e = some s' →
      I s' ∧ m s' + (if kind e then 1 else 0) ≤ m s) (es : List ε) (hs : I s)
    (h : exec step C s es = some s') : es.countP kind ≤ m s := by
  have hle := exec_kind_le_add m kind (fun _ => 0) hstep es hs h
  rwa [List.map_const', List.sum_replicate_nat, Nat.mul_zero, Nat.add_zero] at hle

/-- When a measure drops at every step from a state of the invariant, it bounds the length of
every run. -/
theorem exec_length_le {I : σ → Prop} (m : σ → Nat)
    (hstep : ∀ s e s', I s → step s e = some s' → I s' ∧ m s' < m s) (es : List ε) (hs : I s)
    (h : exec step Free s es = some s') : es.length ≤ m s := by
  have hle := exec_kind_le m (fun _ => true) (fun s e s' hi _ h => hstep s e s' hi h) es hs h
  rwa [List.countP_true] at hle

/-- A run of events and one more. -/
theorem exec_concat [∀ s e, Decidable (C s e)] {s₁ : σ} {e : ε} {es : List ε}
    (h : exec step C s es = some s₁) (hC : C s₁ e) (hs : step s₁ e = some s') :
    exec step C s (es ++ [e]) = some s' := by
  induction es generalizing s with
  | nil =>
    cases h
    exact exec_cons_eq_some.2 ⟨s', hs, hC, rfl⟩
  | cons d es ih =>
    obtain ⟨s₂, h₂, hd, h⟩ := exec_cons_eq_some.1 h
    exact exec_cons_eq_some.2 ⟨s₂, h₂, hd, ih h⟩

/-- When the runs are of bounded length and go on until they are at their end, one ends. -/
theorem exists_final [∀ s e, Decidable (C s e)] {final : σ → Prop} (n : Nat)
    (hbound : ∀ es s', exec step C s es = some s' → es.length ≤ n)
    (hgo : ∀ s', Reach step C s s' → ¬ final s' → ∃ e s'', C s' e ∧ step s' e = some s'') :
    ∃ s', Reach step C s s' ∧ final s' := by
  by_contra hnone
  -- otherwise there are runs of every length
  have hruns : ∀ k, ∃ es s', exec step C s es = some s' ∧ es.length = k := by
    intro k
    induction k with
    | zero => exact ⟨[], s, rfl, rfl⟩
    | succ k ih =>
      obtain ⟨es, s', hrun, hlen⟩ := ih
      have hreach : Reach step C s s' := .of_exec es hrun
      obtain ⟨e, s'', hC, hs⟩ := hgo s' hreach fun hf => hnone ⟨s', hreach, hf⟩
      refine ⟨es ++ [e], s'', exec_concat hrun hC hs, ?_⟩
      rw [List.length_append, hlen, List.length_singleton]
  obtain ⟨es, s', hrun, hlen⟩ := hruns (n + 1)
  have := hbound es s' hrun
  omega

/-- What is observed of the steps of a run, in their order. -/
def observed {β : Type _} (step : σ → ε → Option σ) (obs : σ → ε → Option β) :
    σ → List ε → List β
  | _, [] => []
  | s, e :: es =>
    match step s e with
    | some s' => (obs s e).toList ++ observed step obs s' es
    | none => []

/-- A relation between the state and what was observed so far, which every step that meets the
condition keeps, is kept by a run under that condition. -/
theorem observed_keeps [∀ s e, Decidable (C s e)] {β : Type _} {obs : σ → ε → Option β}
    {I : σ → List β → Prop}
    (hstep : ∀ s e s' bs, I s bs → C s e → step s e = some s' → I s' (bs ++ (obs s e).toList))
    (es : List ε) {bs : List β} (h0 : I s bs) (h : exec step C s es = some s') :
    I s' (bs ++ observed step obs s es) := by
  induction es generalizing s bs with
  | nil =>
    cases h
    rwa [observed, List.append_nil]
  | cons e es ih =>
    obtain ⟨s₁, h₁, hC, h⟩ := exec_cons_eq_some.1 h
    have hobs : observed step obs s (e :: es) = (obs s e).toList ++ observed step obs s₁ es := by
      rw [observed, h₁]
    rw [hobs, ← List.append_assoc]
    exact ih (hstep s e s₁ bs h0 hC h₁) h

/-- A relation between the state and what was observed so far, which holds initially and is kept
by every step that meets the condition, holds at the end of a run under that condition. -/
theorem observed_invariant [∀ s e, Decidable (C s e)] {β : Type _} (obs : σ → ε → Option β)
    {I : σ → List β → Prop} (h0 : I s [])
    (hstep : ∀ s e s' bs, I s bs → C s e → step s e = some s' → I s' (bs ++ (obs s e).toList))
    (es : List ε) (h : exec step C s es = some s') : I s' (observed step obs s es) := by
  have hrun := observed_keeps hstep es h0 h
  rwa [List.nil_append] at hrun

end

/-! ## Families of components -/

/-- A property of every component is kept when one of them changes to one that has it. -/
theorem forall_update {α : Type _} {P : Nat → α → Prop} {f : Nat → α} {x : α} {q n : Nat}
    (h : ∀ i < n, P i (f i)) (hx : q < n → P q x) : ∀ i < n, P i (Function.update f q x i) := by
  intro i hi
  by_cases hiq : i = q
  · subst hiq
    rw [Function.update_self]
    exact hx hi
  · rw [Function.update_of_ne hiq]
    exact h i hi

/-- A property of every component is kept when a component that has it is added. -/
theorem forall_update_succ {α : Type _} {P : Nat → α → Prop} {f : Nat → α} {x : α} {n : Nat}
    (h : ∀ i < n, P i (f i)) (hx : P n x) : ∀ i < n + 1, P i (Function.update f n x i) := by
  intro i hi
  rcases Nat.lt_succ_iff_lt_or_eq.1 hi with hi | rfl
  · rw [Function.update_of_ne (Nat.ne_of_lt hi)]
    exact h i hi
  · rw [Function.update_self]
    exact hx

/-- A sum over a family of components, after one of them has changed. -/
theorem sum_update {ι α : Type _} [DecidableEq ι] (s : Finset ι) (g : ι → α) (f : α → Nat) {q : ι}
    (hq : q ∈ s) (x : α) :
    ∑ i ∈ s, f (Function.update g q x i) + f (g q) = ∑ i ∈ s, f (g i) + f x := by
  rw [← Finset.add_sum_erase s _ hq, ← Finset.add_sum_erase s (fun i => f (g i)) hq,
    Function.update_self]
  have hrest : ∑ i ∈ s.erase q, f (Function.update g q x i) = ∑ i ∈ s.erase q, f (g i) :=
    Finset.sum_congr rfl fun i hi => by rw [Function.update_of_ne (Finset.ne_of_mem_erase hi)]
  rw [hrest]
  omega

end Transition
