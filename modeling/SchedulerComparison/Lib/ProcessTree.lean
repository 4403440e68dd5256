import SchedulerComparison.Lib.Work

/-!
# Trees of processes

A program whose processes all come nearer to their end with every call, and in which a fork shares
the processes that can come from the parent between it and the child (`Spreads`).
`Spreads.diesOut` is about every run from one process, whatever fails and in whatever order the
events come: there are never more processes than `spread` says, and a run has so many; the number
of events of processes is bounded; and as long as a process has not ended one is possible, since a
process waits for a younger one only.
-/

open Transition

namespace Posix

section
variable {L Img Out : Type}

/-- Every call brings a process nearer to its end: `calls` bounds the calls that it has left, and
`spread` is the number of processes that can come from it, itself among them. -/
structure Spreads (code : L → Call L Img Out) (at_ : L → Prop) (calls spread : L → Nat) :
    Prop where
  pos : ∀ {l}, at_ l → 0 < spread l
  defined : ∀ {l}, at_ l → code l ≠ .undefined
  step : ∀ {l l'}, at_ l → Successor code l l' → at_ l' ∧ calls l' < calls l
  child : ∀ {l k}, at_ l → code l = .fork k → at_ (k 0) ∧ calls (k 0) < calls l
  goes : ∀ {l l' n ret}, at_ l → Sys.Goes n ret (code l) l' → spread l' = spread l
  shares : ∀ {l k pid}, at_ l → code l = .fork k → pid ≠ 0 →
    spread (k pid) + spread (k 0) = spread l
  waits : ∀ {l k pid}, at_ l → code l = .wait k → spread (k pid) = spread l
  ends : ∀ {l status}, at_ l → code l = .exit status → spread l = 1

/-- The processes from `s₀` on die out: at most `most` processes come to be, and so many can, the
number of their events is bounded, and one is possible as long as a process has not ended. An image
can end at any time, and a SIGTERM need not end a process, which may ignore it. -/
structure DiesOut (code : L → Call L Img Out) (s₀ : Sys L Img Out) (most : Nat) : Prop where
  atMost : ∀ s, Reach (Sys.step code) Free s₀ s → s.procs.keys.length ≤ most
  attained : ∃ s, Reach (Sys.step code) Free s₀ s ∧ s.procs.keys.length = most
  bounded : ∃ n, ∀ es s, exec (Sys.step code) Free s₀ es = some s → es.countP Event.moves ≤ n
  goesOn : ∀ s, Reach (Sys.step code) Free s₀ s →
    (∃ p P, s.procs.lookup p = some P ∧ P.life.isRunning = true) →
    ∃ e s', e.moves = true ∧ s.step code e = some s'

/-- A process by its control point, an image, and what has ended. -/
def Life.weigh (f : L → Nat) (image ended : Nat) : Life L Img → Nat
  | .code l => f l
  | .image _ => image
  | _ => ended

namespace Sys

/-- The processes of the program are at these control points. -/
def AllAt (at_ : L → Prop) (s : Sys L Img Out) : Prop :=
  ∀ q Q l, s.procs.lookup q = some Q → Q.life = .code l → at_ l

/-- A process is younger than its parent, which is in the table. -/
def Elders (s : Sys L Img Out) : Prop :=
  ∀ q Q, s.procs.lookup q = some Q →
    Q.ppid = 0 ∨ ∃ P, s.procs.lookup Q.ppid = some P ∧ P.forkedAt < Q.forkedAt

/-- What holds of the table of a tree of processes. -/
structure Tree (at_ : L → Prop) (s : Sys L Img Out) : Prop where
  allAt : AllAt at_ s
  positive : Positive s
  timed : Timed s
  elders : Elders s

variable {code : L → Call L Img Out} {at_ : L → Prop} {calls spread f : L → Nat} {image ended : Nat}
  {s s' : Sys L Img Out} {e : Event} {p q : Int} {P Q : Proc L Img} {l : L}

/-! ## What every step keeps -/

/-- A child is forked behind its parent. -/
theorem step_elders (ht : Timed s) (h : Elders s) (hs : s.step code e = some s') : Elders s' := by
  intro q Q' hQ'
  cases hQ : s.procs.lookup q with
  | some Q =>
    obtain ⟨Q'', hQ'', hb⟩ := step_before hs hQ
    cases hQ'.symm.trans hQ''
    rcases h q Q hQ with h0 | ⟨P, hP, hlt⟩
    · exact .inl (hb.ppid.trans h0)
    · obtain ⟨P', hP', hbP⟩ := step_before hs hP
      exact .inr ⟨P', hb.ppid ▸ hP', by rw [hbP.forkedAt, hb.forkedAt]; exact hlt⟩
  | none =>
    obtain ⟨p, P, l, k, rfl, hP, -, -, -, rfl⟩ := step_born hs hQ hQ'
    obtain ⟨P', hP', hb⟩ := step_before hs hP
    exact .inr ⟨P', hP', hb.forkedAt ▸ (ht p P hP).forkedAt⟩

/-- The processes stay where they can be. -/
theorem step_allAt (hc : Spreads code at_ calls spread) (h : AllAt at_ s)
    (hs : s.step code e = some s') : AllAt at_ s' := by
  intro q Q' l' hQ' hl'
  cases hQ : s.procs.lookup q with
  | some Q =>
    rcases step_successor hs hQ (point?_eq_some.2 ⟨Q', hQ', hl'⟩) with
      ⟨-, hl⟩ | ⟨-, l, -, hl, hsucc⟩
    · obtain ⟨P, hP, hl⟩ := point?_eq_some.1 hl
      exact h q P l' hP hl
    · obtain ⟨P, hP, hl⟩ := point?_eq_some.1 hl
      exact (hc.step (h q P l hP hl) hsucc).1
  | none =>
    obtain ⟨p, P, l, k, rfl, hP, hl, hf, -, rfl⟩ := step_born hs hQ hQ'
    cases hl'
    exact (hc.child (h p P l hP hl) hf).1

theorem step_tree (hc : Spreads code at_ calls spread) (h : Tree at_ s)
    (hs : s.step code e = some s') : Tree at_ s' where
  allAt := step_allAt hc h.allAt hs
  positive := step_positive hs h.positive
  timed := step_timed hs h.timed
  elders := step_elders h.timed h.elders hs

theorem tree_init {root : Int} (h0 : 0 < root) (hl : at_ l) :
    Tree at_ (Sys.init root l : Sys L Img Out) where
  allAt q Q l' hQ hl' := by
    rw [(lookup_init hQ).2] at hl'
    cases hl'
    exact hl
  positive := positive_init h0
  timed := timed_init
  elders q Q hQ := .inl (by rw [(lookup_init hQ).2])

/-! ## Somebody can go on -/

/-- A process that has not ended can go on, or waits for a younger one that has not. The number `n`
is what is left between the time it was forked and the present. -/
theorem Tree.goes_on (hc : Spreads code at_ calls spread) (h : Tree at_ s) (n : Nat)
    (hP : s.procs.lookup p = some P) (hrun : P.life.isRunning = true)
    (hn : s.clock ≤ P.forkedAt + n) : ∃ e s', e.moves = true ∧ s.step code e = some s' := by
  induction n generalizing p P with
  | zero =>
    have := (h.timed p P hP).forkedAt
    omega
  | succ n ih =>
    cases hlife : P.life with
    | zombie | reaped =>
      rw [hlife] at hrun
      cases hrun
    | image img =>
      obtain ⟨pp, o, f, x⟩ := P
      subst hlife
      exact ⟨.exit p (.exited 0), _, rfl, by simp only [Sys.step, hP]; rfl⟩
    | code l =>
      by_cases hfork : ∃ k, code l = .fork k
      · obtain ⟨k, hk⟩ := hfork
        obtain ⟨c, s', -, hs⟩ := step_of_fork hP hlife hk
        exact ⟨_, s', rfl, hs⟩
      by_cases hwait : ∃ k, code l = .wait k
      · obtain ⟨k, hk⟩ := hwait
        rcases (s.unreaped p).eq_empty_or_nonempty with hempty | ⟨q, Q, hQ, hppid, hreap⟩
        · obtain ⟨s', hs, -⟩ := step_of_noChild hP hlife hk (noChild_of_unreaped hempty)
          exact ⟨_, s', rfl, hs⟩
        have hpos := h.positive p P hP
        by_cases hrunQ : Q.life.isRunning = true
        · rcases h.elders q Q hQ with h0 | ⟨P', hP', hlt⟩
          · omega
          · cases (hppid ▸ hP').symm.trans hP
            exact ih hQ hrunQ (by omega)
        · obtain ⟨pp, o, f, x⟩ := Q
          obtain rfl : pp = p := hppid
          cases x with
          | code | image => exact absurd rfl hrunQ
          | reaped => cases hreap
          | zombie img st t =>
            have hq := h.positive q _ hQ
            obtain ⟨s', hs, -⟩ := step_of_wait hP hlife hk (by omega) hQ
            exact ⟨_, s', rfl, hs⟩
      · obtain ⟨s', hs⟩ := step_of_call hP hlife (fun k hk => hfork ⟨k, hk⟩)
          (fun k hk => hwait ⟨k, hk⟩) (hc.defined (h.allAt p P l hP hlife))
        exact ⟨_, s', rfl, hs⟩

/-! ## The weight of a tree -/

/-- A fork that succeeds. -/
theorem step_of_fresh {k : Int → L} {c : Int} (hp : s.procs.lookup p = some P)
    (hl : P.life = .code l) (hc : code l = .fork k) (h0 : 0 < c) (hn : s.procs.lookup c = none) :
    ∃ s', s.step code (.call p c) = some s' ∧
      s'.procs =
        ((s.live p P (.code (k c))).put c ⟨p, some l, s.clock, .code (k 0)⟩).procs := by
  have hneg : c ≠ -1 := by omega
  have hnew : 0 < c ∧ c ∉ s.procs := ⟨h0, AList.lookup_eq_none.1 hn⟩
  obtain ⟨pp, o, f, x⟩ := P
  subst hl
  simp only [Sys.step, hp, hc, Sys.call, if_neg hneg, if_pos hnew, Option.map_some]
  exact ⟨_, rfl, rfl⟩

/-- The weight of a process does not grow, and drops by `d` when each call takes so much. -/
theorem workOf_weigh {d : Nat} (h : AllAt at_ s) (hs : s.step code e = some s')
    (hm : e.moves = true)
    (hcall : ∀ {l l'}, at_ l → Successor code l l' → f l' + d ≤ f l)
    (himage : ∀ {l}, at_ l → image + d ≤ f l) (hended : ended + d ≤ image) :
    s'.workOf (fun _ => Life.weigh f image ended) e.pid + d ≤
      s.workOf (fun _ => Life.weigh f image ended) e.pid := by
  have hcode : ∀ {l}, at_ l → ended + d ≤ f l := fun hl => by
    have := himage hl
    omega
  by_cases hcalls : ∃ p ret, e = .call p ret
  · obtain ⟨p, ret, rfl⟩ := hcalls
    obtain ⟨P, l, -, hP, hl, -, -⟩ := step_call hs
    obtain ⟨P', hP', -⟩ := step_before hs hP
    have hat : at_ l := h p P l hP hl
    rw [show (Event.call p ret).pid = p from rfl, workOf_eq hP, workOf_eq hP', hl]
    cases hl' : P'.life with
    | code l' =>
      rcases step_successor hs hP (point?_eq_some.2 ⟨P', hP', hl'⟩) with
        ⟨hne, -⟩ | ⟨-, l₀, -, hl₀, hsucc⟩
      · exact absurd rfl (hne ret)
      · cases hl₀.symm.trans (point?_eq_some.2 ⟨P, hP, hl⟩)
        exact hcall hat hsucc
    | image img => exact himage hat
    | zombie | reaped => exact hcode hat
  · rcases step_end hs fun p ret h => hcalls ⟨p, ret, h⟩ with
      ⟨P, img, st, -, hP, hrun, rfl⟩ | ⟨time, rfl, -, -⟩
    · have hP' : ((s.live e.pid P (.zombie img st s.clock)).tick []).procs.lookup e.pid =
          some { P with life := .zombie img st s.clock } := lookup_live_self
      rw [workOf_eq hP, workOf_eq hP']
      cases hl : P.life with
      | code l => exact hcode (h _ P l hP hl)
      | image img => exact hended
      | zombie | reaped =>
        rw [hl] at hrun
        cases hrun
    · cases hm

/-- The weight of all processes does not grow, and drops by `d` when each call takes so much. -/
theorem work_weigh {d : Nat} (h : AllAt at_ s) (hs : s.step code e = some s')
    (hm : e.moves = true)
    (hcall : ∀ {l l'}, at_ l → Successor code l l' → f l' + d ≤ f l)
    (hfork : ∀ {l k pid}, at_ l → code l = .fork k → pid ≠ 0 → f (k pid) + f (k 0) + d ≤ f l)
    (himage : ∀ {l}, at_ l → image + d ≤ f l) (hended : ended + d ≤ image) :
    s'.work (fun _ => Life.weigh f image ended) + d ≤
      s.work (fun _ => Life.weigh f image ended) := by
  refine step_work d hs (fun _ _ _ _ _ => rfl) (workOf_weigh h hs hm hcall himage hended)
    fun c hnone hsome => ?_
  obtain ⟨C, hC⟩ := Option.ne_none_iff_exists'.1 hsome
  obtain ⟨p, P, l, k, rfl, hP, hl, hk, h0, rfl⟩ := step_born hs hnone hC
  obtain ⟨s₁, hs₁, hprocs⟩ := step_of_fresh hP hl hk h0 hnone
  cases hs.symm.trans hs₁
  have hne : p ≠ c := by
    rintro rfl
    cases hP.symm.trans hnone
  have hP' : s'.procs.lookup p = some { P with life := .code (k c) } := by
    rw [hprocs, lookup_put_ne hne]
    exact lookup_live_self
  rw [show (Event.call p c).pid = p from rfl, workOf_eq hP, workOf_eq hP', workOf_eq hC, hl]
  exact hfork (h p P l hP hl) hk h0.ne'

/-- Every process counts once. -/
theorem length_keys (s : Sys L Img Out) : s.procs.keys.length = s.work fun _ _ => 1 := by
  rw [work, ← List.toFinset_card_of_nodup s.procs.keys_nodup, Finset.card_eq_sum_ones]
  refine Finset.sum_congr rfl fun q hq => ?_
  obtain ⟨Q, hQ⟩ := Option.isSome_iff_exists.1
    (AList.lookup_isSome.2 (AList.mem_keys.2 (List.mem_toFinset.1 hq)))
  exact (workOf_eq (w := fun _ _ => 1) hQ).symm

/-- There are no more processes than they weigh, when each weighs something. -/
theorem length_keys_le (h : AllAt at_ s) (hf : ∀ {l}, at_ l → 0 < f l) :
    s.procs.keys.length ≤ s.work fun _ => Life.weigh f 1 1 := by
  rw [length_keys]
  refine Finset.sum_le_sum fun q hq => ?_
  cases hQ : s.procs.lookup q with
  | none => rw [workOf_eq_zero hQ]; exact Nat.zero_le _
  | some Q =>
    rw [workOf_eq hQ, workOf_eq hQ]
    cases hl : Q.life with
    | code l => exact hf (h q Q l hQ hl)
    | _ => exact le_refl 1

/-- At first there is the weight of the root. -/
theorem work_init {root : Int} {w : Int → Life L Img → Nat} :
    (Sys.init root l : Sys L Img Out).work w = w root (.code l) := by
  rw [work_eq_sum (K := {root}) (by intro q hq; exact hq), Finset.sum_singleton,
    workOf_eq lookup_init_self]

/-! ## A full tree -/

/-- From `s` to `s'` process `p` has come to its end, and has become `n` processes. Of the others
only its children have changed. -/
structure Grows (code : L → Call L Img Out) (s s' : Sys L Img Out) (p : Int) (n : Nat) :
    Prop where
  reach : Reach (Sys.step code) Free s s'
  ended : ∀ P, s'.procs.lookup p = some P → P.life.isRunning = false
  others : ∀ q Q, q ≠ p → s.procs.lookup q = some Q → Q.ppid ≠ p → s'.procs.lookup q = some Q
  new : ∀ q Q, s.procs.lookup q = none → s'.procs.lookup q = some Q →
    Q.ppid = p ∨ s.procs.lookup Q.ppid = none
  count : s'.procs.keys.length + 1 = s.procs.keys.length + n

/-- No child of `p` is running. -/
def Alone (s : Sys L Img Out) (p : Int) : Prop :=
  ∀ q Q, s.procs.lookup q = some Q → Q.ppid = p → Q.life.isRunning = false

/-- The table is the same but for `p`, which has gone on, and for its children, which do not run. -/
structure OwnStep (s s₁ : Sys L Img Out) (p : Int) : Prop where
  others : ∀ q Q, q ≠ p → s.procs.lookup q = some Q → Q.ppid ≠ p → s₁.procs.lookup q = some Q
  new : ∀ q, s.procs.lookup q = none → s₁.procs.lookup q = none
  alone : Alone s₁ p
  count : s₁.procs.keys.length = s.procs.keys.length

/-- A step of `p` and what follows it. -/
theorem Grows.cons {s₁ : Sys L Img Out} {n : Nat} (hs : s.step code e = some s₁)
    (hq : OwnStep s s₁ p) (h : Grows code s₁ s' p n) : Grows code s s' p n where
  reach := (Reach.tail .refl trivial hs).trans h.reach
  ended := h.ended
  others q Q hqp hQ hppid := h.others q Q hqp (hq.others q Q hqp hQ hppid) hppid
  new q Q hnone hQ := (h.new q Q (hq.new q hnone) hQ).imp_right fun hn => by
    by_contra hsome
    obtain ⟨R, hR⟩ := Option.ne_none_iff_exists'.1 hsome
    obtain ⟨R', hR', -⟩ := step_before hs hR
    cases hn.symm.trans hR'
  count := hq.count ▸ h.count

/-- No process is its own child. -/
theorem Tree.not_own (h : Tree at_ s) (hP : s.procs.lookup p = some P) : P.ppid ≠ p := by
  intro hppid
  have hpos := h.positive p P hP
  rcases h.elders p P hP with h0 | ⟨P', hP', hlt⟩
  · omega
  · rw [hppid, hP] at hP'
    cases hP'
    exact lt_irrefl _ hlt

/-- A pid that is not in the table has no children. -/
theorem Tree.ppid_ne {c : Int} (h : Tree at_ s) (h0 : 0 < c) (hn : s.procs.lookup c = none)
    (hQ : s.procs.lookup q = some Q) : Q.ppid ≠ c := by
  rintro rfl
  rcases h.elders q Q hQ with hzero | ⟨P, hP, -⟩
  · omega
  · cases hn.symm.trans hP

/-- A process that is not in the table at the end of a run never was. -/
theorem lookup_eq_none_of_reach (hr : Reach (Sys.step code) Free s s')
    (hn : s'.procs.lookup q = none) : s.procs.lookup q = none := by
  by_contra hsome
  obtain ⟨Q, hQ⟩ := Option.ne_none_iff_exists'.1 hsome
  obtain ⟨Q', hQ', -⟩ := reach_before hr hQ
  cases hn.symm.trans hQ'

/-- A process that goes on by itself. -/
theorem OwnStep.live {s₁ : Sys L Img Out} {x : Life L Img} (h : Tree at_ s) (ha : Alone s p)
    (hP : s.procs.lookup p = some P) (hs : s₁.procs = (s.live p P x).procs) : OwnStep s s₁ p := by
  have hself : s₁.procs.lookup p = some { P with life := x } := by rw [hs]; exact lookup_live_self
  have ho : ∀ q ≠ p, s₁.procs.lookup q = s.procs.lookup q := fun q hq => by
    rw [hs]
    exact lookup_live_ne hq
  refine ⟨fun q Q hq hQ _ => (ho q hq).trans hQ, fun q hn => ?_, fun q Q hQ hppid => ?_, ?_⟩
  · have hq : q ≠ p := by
      rintro rfl
      cases hn.symm.trans hP
    exact (ho q hq).trans hn
  · have hq : q ≠ p := by
      rintro rfl
      cases hself.symm.trans hQ
      exact h.not_own hP hppid
    exact ha q Q ((ho q hq).symm.trans hQ) hppid
  · have hwork := work_own (w := fun _ _ => 1) ho
    rw [workOf_eq hP, workOf_eq hself] at hwork
    rw [length_keys, length_keys]
    exact Nat.add_right_cancel hwork

/-- A process that waits for a child. -/
theorem OwnStep.wait {s₁ : Sys L Img Out} {x : Life L Img} {c : Int} {o : Option L} {f t u : Nat}
    {img : Option Img} {st : Status} (h : Tree at_ s) (ha : Alone s p)
    (hP : s.procs.lookup p = some P) (hC : s.procs.lookup c = some ⟨p, o, f, .zombie img st t⟩)
    (hs : s₁.procs = ((s.put c ⟨p, o, f, .reaped img st t u⟩).live p P x).procs) :
    OwnStep s s₁ p := by
  have hne : p ≠ c := by
    rintro rfl
    exact h.not_own hC rfl
  have hself : s₁.procs.lookup p = some { P with life := x } := by rw [hs]; exact lookup_live_self
  have hchild : s₁.procs.lookup c = some ⟨p, o, f, .reaped img st t u⟩ := by
    rw [hs, lookup_live_ne hne.symm]
    exact lookup_put_self
  have ho : ∀ q ≠ p, q ≠ c → s₁.procs.lookup q = s.procs.lookup q := fun q hq hqc => by
    rw [hs, lookup_live_ne hq, lookup_put_ne hqc]
  refine ⟨fun q Q hq hQ hppid => ?_, fun q hn => ?_, fun q Q hQ hppid => ?_, ?_⟩
  · have hqc : q ≠ c := by
      rintro rfl
      cases hQ.symm.trans hC
      exact hppid rfl
    exact (ho q hq hqc).trans hQ
  · have hq : q ≠ p := by
      rintro rfl
      cases hn.symm.trans hP
    have hqc : q ≠ c := by
      rintro rfl
      cases hn.symm.trans hC
    exact (ho q hq hqc).trans hn
  · have hq : q ≠ p := by
      rintro rfl
      cases hself.symm.trans hQ
      exact h.not_own hP hppid
    by_cases hqc : q = c
    · subst hqc
      cases hchild.symm.trans hQ
      rfl
    · exact ha q Q ((ho q hq hqc).symm.trans hQ) hppid
  · have hwork := work_pair (w := fun _ _ => 1) hne ho
    rw [workOf_eq hP, workOf_eq hself, workOf_eq hC, workOf_eq hchild] at hwork
    rw [length_keys, length_keys]
    exact Nat.add_right_cancel hwork

/-- A process that has ended is one process. -/
theorem Grows.refl (hP : s.procs.lookup p = some P) (hrun : P.life.isRunning = false) :
    Grows code s s p 1 where
  reach := .refl
  ended P' hP' := by
    cases hP.symm.trans hP'
    exact hrun
  others _ _ _ hQ _ := hQ
  new q Q hn hQ := by cases hn.symm.trans hQ
  count := rfl

/-- A parent and its child, after their fork. -/
structure Forked (s s₁ : Sys L Img Out) (p c : Int) (P C : Proc L Img) : Prop where
  ne : p ≠ c
  inTable : s.procs.lookup p ≠ none
  parent : s₁.procs.lookup p = some P
  child : s₁.procs.lookup c = some C
  ppid : C.ppid = p
  fresh : s.procs.lookup c = none
  pos : 0 < c
  others : ∀ q ≠ p, q ≠ c → s₁.procs.lookup q = s.procs.lookup q
  count : s₁.procs.keys.length = s.procs.keys.length + 1

/-- A process can fork. -/
theorem exists_forked {k : Int → L} (hP : s.procs.lookup p = some P) (hl : P.life = .code l)
    (hk : code l = .fork k) :
    ∃ c s₁, s.step code (.call p c) = some s₁ ∧
      Forked s s₁ p c { P with life := .code (k c) } ⟨p, some l, s.clock, .code (k 0)⟩ := by
  obtain ⟨c, hpos, hc⟩ := s.exists_fresh
  have hfresh := AList.lookup_eq_none.2 hc
  obtain ⟨s₁, hs, hprocs⟩ := step_of_fresh hP hl hk hpos hfresh
  have hne : p ≠ c := by
    rintro rfl
    cases hP.symm.trans hfresh
  have hparent : s₁.procs.lookup p = some { P with life := .code (k c) } := by
    rw [hprocs, lookup_put_ne hne]
    exact lookup_live_self
  have hchild : s₁.procs.lookup c = some ⟨p, some l, s.clock, .code (k 0)⟩ := by
    rw [hprocs]
    exact lookup_put_self
  have ho : ∀ q ≠ p, q ≠ c → s₁.procs.lookup q = s.procs.lookup q := fun q hq hqc => by
    rw [hprocs, lookup_put_ne hqc, lookup_live_ne hq]
  refine ⟨c, s₁, hs, hne, by rw [hP]; nofun, hparent, hchild, rfl, hfresh, hpos, ho, ?_⟩
  have hwork := work_pair (w := fun _ _ => 1) hne ho
  rw [workOf_eq hP, workOf_eq hparent, workOf_eq_zero hfresh, workOf_eq hchild] at hwork
  rw [length_keys, length_keys]
  omega

/-- A child that was just forked has no children. -/
theorem Forked.alone {s₁ : Sys L Img Out} {c : Int} {C : Proc L Img} (h : Forked s s₁ p c P C)
    (ht : Tree at_ s₁) (hold : Tree at_ s) : Alone s₁ c := by
  intro q Q hQ hppid
  exfalso
  have hqc : q ≠ c := by
    rintro rfl
    exact ht.not_own hQ hppid
  by_cases hq : q = p
  · subst hq
    rcases ht.elders q Q hQ with h0 | ⟨C', hC', hlt⟩
    · have := h.pos
      omega
    · cases (hppid ▸ hC').symm.trans h.child
      rcases ht.elders c _ h.child with h0 | ⟨P', hP', hlt'⟩
      · have := ht.positive q Q hQ
        have := h.ppid
        omega
      · rw [h.ppid, hQ] at hP'
        cases hP'
        omega
  · exact hold.ppid_ne h.pos h.fresh ((h.others q hq hqc).symm.trans hQ) hppid

/-- When the child has come to its end, its parent has no child that runs. -/
theorem Forked.alone_parent {s₁ s₂ : Sys L Img Out} {c : Int} {C : Proc L Img} {n : Nat}
    (h : Forked s s₁ p c P C) (ht : Tree at_ s₁) (ha : Alone s p) (hg : Grows code s₁ s₂ c n) :
    Alone s₂ p := by
  intro q Q hQ hppid
  cases hQ₁ : s₁.procs.lookup q with
  | none =>
    rcases hg.new q Q hQ₁ hQ with hc | hnone
    · exact absurd (hppid.symm.trans hc) h.ne
    · rw [hppid] at hnone
      cases hnone.symm.trans h.parent
  | some Q₁ =>
    by_cases hqc : q = c
    · exact hg.ended Q (hqc ▸ hQ)
    obtain ⟨Q', hQ', hb⟩ := reach_before hg.reach hQ₁
    cases hQ.symm.trans hQ'
    have hppid₁ : Q₁.ppid = p := hb.ppid.symm.trans hppid
    cases hQ.symm.trans (hg.others q Q₁ hqc hQ₁ fun hc => h.ne (hppid₁.symm.trans hc))
    have hq : q ≠ p := by
      rintro rfl
      exact ht.not_own hQ₁ hppid
    exact ha q _ ((h.others q hq hqc).symm.trans hQ₁) hppid

/-- What a fork becomes, when first the child and then the parent comes to its end. -/
theorem Grows.fork {s₁ s₂ : Sys L Img Out} {c : Int} {C : Proc L Img} {m n : Nat}
    (hs : s.step code e = some s₁) (ht : Tree at_ s) (h : Forked s s₁ p c P C)
    (hchild : Grows code s₁ s₂ c m) (hparent : Grows code s₂ s' p n) :
    Grows code s s' p (n + m) where
  reach := ((Reach.tail .refl trivial hs).trans hchild.reach).trans hparent.reach
  ended := hparent.ended
  others q Q hq hQ hppid := by
    have hqc : q ≠ c := by
      rintro rfl
      cases hQ.symm.trans h.fresh
    have hQ₁ := (h.others q hq hqc).trans hQ
    exact hparent.others q Q hq
      (hchild.others q Q hqc hQ₁ (ht.ppid_ne h.pos h.fresh hQ)) hppid
  new q Q hn hQ := by
    have hr₁ : Reach (Sys.step code) Free s s₁ := .tail .refl trivial hs
    cases hQ₂ : s₂.procs.lookup q with
    | none =>
      exact (hparent.new q Q hQ₂ hQ).imp_right
        (lookup_eq_none_of_reach (hr₁.trans hchild.reach))
    | some Q₂ =>
      obtain ⟨Q', hQ', hb⟩ := reach_before hparent.reach hQ₂
      cases hQ.symm.trans hQ'
      rw [hb.ppid]
      cases hQ₁ : s₁.procs.lookup q with
      | none =>
        rcases hchild.new q Q₂ hQ₁ hQ₂ with hc | hnone
        · exact .inr (hc ▸ h.fresh)
        · exact .inr (lookup_eq_none_of_reach hr₁ hnone)
      | some Q₁ =>
        have hqc : q = c := by
          by_contra hqc
          have hq : q ≠ p := by
            rintro rfl
            exact h.inTable hn
          cases ((h.others q hq hqc).trans hn).symm.trans hQ₁
        subst hqc
        obtain ⟨Q₂', hQ₂', hb₂⟩ := reach_before hchild.reach h.child
        cases hQ₂.symm.trans hQ₂'
        exact .inl (hb₂.ppid.trans h.ppid)
  count := by
    have h₁ := h.count
    have h₂ := hchild.count
    have h₃ := hparent.count
    omega

/-- A wait without a child to wait for, with the table that it leaves. -/
theorem step_of_empty {k : Int → L} (hP : s.procs.lookup p = some P) (hl : P.life = .code l)
    (hc : code l = .wait k) (hn : s.unreaped p = ∅) :
    ∃ s', s.step code (.call p (-1)) = some s' ∧
      s'.procs = (s.live p P (.code (k (-1)))).procs := by
  obtain ⟨pp, o, f, x⟩ := P
  subst hl
  simp only [Sys.step, hP, hc, Sys.call, if_true, if_pos (noChild_of_unreaped hn),
    Option.map_some]
  exact ⟨_, rfl, rfl⟩

/-- A wait for a child that has ended, with the table that it leaves. -/
theorem step_of_zombie {k : Int → L} {o : Option L} {f t : Nat} {img : Option Img} {st : Status}
    (hP : s.procs.lookup p = some P) (hl : P.life = .code l) (hc : code l = .wait k)
    (hq : q ≠ -1) (hz : s.procs.lookup q = some ⟨p, o, f, .zombie img st t⟩) :
    ∃ s', s.step code (.call p q) = some s' ∧
      s'.procs =
        ((s.put q ⟨p, o, f, .reaped img st t s.clock⟩).live p P (.code (k q))).procs := by
  obtain ⟨pp, o', f', x⟩ := P
  subst hl
  simp only [Sys.step, hP, hc, Sys.call, if_neg hq, hz, if_true, Option.map_some]
  exact ⟨_, rfl, rfl⟩

/-- When a process makes its calls one after the other, lets each child come to its end behind its
fork, and has every `execl` fail, it becomes as many processes as can come from it. -/
theorem Tree.grows (hc : Spreads code at_ calls spread) (n : Nat) (h : Tree at_ s) (ha : Alone s p)
    (hP : s.procs.lookup p = some P) (hl : P.life = .code l) (hn : calls l < n) :
    ∃ s', Grows code s s' p (spread l) := by
  induction n generalizing s p P l with
  | zero => exact absurd hn (Nat.not_lt_zero _)
  | succ n ih =>
    have hat : at_ l := h.allAt p P l hP hl
    have hcalls : ∀ {l'}, Successor code l l' → calls l' < n := fun hs =>
      (hc.step hat hs).2.trans_le (Nat.lt_succ_iff.1 hn)
    have goes : (∀ m, ∃ ret l', Goes m ret (code l) l') → ∃ s', Grows code s s' p (spread l) := by
      intro hgoes
      obtain ⟨ret, l', hg⟩ := hgoes s.clock
      obtain ⟨s₁, hs, hprocs⟩ := step_of_goes hP hl hg
      have hq : OwnStep s s₁ p := .live h ha hP hprocs
      obtain ⟨s', hgrows⟩ := ih (step_tree hc h hs) hq.alone
        (by rw [hprocs]; exact lookup_live_self) rfl (hcalls (.goes hg))
      exact ⟨s', hc.goes hat hg ▸ Grows.cons hs hq hgrows⟩
    cases hcode : code l with
    | undefined => exact absurd hcode (hc.defined hat)
    | execl img k => exact goes fun m => ⟨-1, k, hcode ▸ .execl img k rfl⟩
    | kill target k => exact goes fun m => ⟨0, k, hcode ▸ .kill target k⟩
    | now k => exact goes fun m => ⟨0, k m, hcode ▸ .now k⟩
    | print out k => exact goes fun m => ⟨0, k, hcode ▸ .print out k⟩
    | attempt k => exact goes fun m => ⟨0, k true, hcode ▸ .attempt k⟩
    | throws k => exact goes fun m => ⟨0, k, hcode ▸ .throws k rfl⟩
    | skip k => exact goes fun m => ⟨0, k, hcode ▸ .skip k⟩
    | exit status =>
      have hcall : s.call p P l 0 (code l) =
          some (s.live p P (.zombie none (.exited status) s.clock)) := by
        rw [hcode]
        rfl
      have hs : s.step code (.call p 0) = some
          ((s.live p P (.zombie none (.exited status) s.clock)).tick [⟨p, l, 0, s.clock⟩]) := by
        obtain ⟨pp, o, f, x⟩ := P
        subst hl
        simp only [Sys.step, hP, hcall, Option.map_some]
      have hq : OwnStep s
          ((s.live p P (.zombie none (.exited status) s.clock)).tick [⟨p, l, 0, s.clock⟩]) p :=
        .live h ha hP rfl
      rw [hc.ends hat hcode]
      exact ⟨_, Grows.cons hs hq (Grows.refl lookup_live_self rfl)⟩
    | fork k =>
      obtain ⟨c, s₁, hs, hforked⟩ := exists_forked hP hl hcode
      have ht₁ := step_tree hc h hs
      have hsucc : Successor code l (k c) := .fork hcode hforked.pos.ne' rfl
      have hchild : calls (k 0) < n := (hc.child hat hcode).2.trans_le (Nat.lt_succ_iff.1 hn)
      obtain ⟨s₂, hgrows₂⟩ := ih ht₁ (hforked.alone ht₁ h) hforked.child rfl hchild
      have ht₂ : Tree at_ s₂ :=
        hgrows₂.reach.invariant ht₁ fun _ _ _ ht _ hs => step_tree hc ht hs
      have hparent : s₂.procs.lookup p = some { P with life := .code (k c) } :=
        hgrows₂.others p _ hforked.ne hforked.parent fun hppid =>
          h.ppid_ne hforked.pos hforked.fresh hP hppid
      obtain ⟨s', hgrows⟩ := ih ht₂ (hforked.alone_parent ht₁ ha hgrows₂) hparent rfl
        (hcalls hsucc)
      exact ⟨s', hc.shares hat hcode hforked.pos.ne' ▸
        Grows.fork hs h hforked hgrows₂ hgrows⟩
    | wait k =>
      rcases (s.unreaped p).eq_empty_or_nonempty with hempty | ⟨q, Q, hQ, hppid, hreap⟩
      · obtain ⟨s₁, hs, hprocs⟩ := step_of_empty hP hl hcode hempty
        have hq : OwnStep s s₁ p := .live h ha hP hprocs
        obtain ⟨s', hgrows⟩ := ih (step_tree hc h hs) hq.alone
          (by rw [hprocs]; exact lookup_live_self) rfl (hcalls (.wait hcode rfl))
        exact ⟨s', hc.waits hat hcode ▸ Grows.cons hs hq hgrows⟩
      · have hrunQ := ha q Q hQ hppid
        obtain ⟨pp, o, f, x⟩ := Q
        obtain rfl : pp = p := hppid
        cases x with
        | code | image => cases hrunQ
        | reaped => cases hreap
        | zombie img st t =>
          have hpos := h.positive q _ hQ
          obtain ⟨s₁, hs, hprocs⟩ := step_of_zombie hP hl hcode (by omega) hQ
          have hq : OwnStep s s₁ pp := .wait h ha hP hQ hprocs
          obtain ⟨s', hgrows⟩ := ih (step_tree hc h hs) hq.alone
            (by rw [hprocs]; exact lookup_live_self) rfl (hcalls (.wait hcode rfl))
          exact ⟨s', hc.waits hat hcode ▸ Grows.cons hs hq hgrows⟩

end Sys

/-! ## All runs -/

namespace Spreads

variable {code : L → Call L Img Out} {at_ : L → Prop} {calls spread : L → Nat} {l l' : L}
  {k : Int → L} {pid root : Int}

/-- A call does not add to what can come from a process. -/
theorem spread_le (hc : Spreads code at_ calls spread) (h : at_ l) (hs : Successor code l l') :
    spread l' ≤ spread l := by
  cases hs with
  | goes hg => exact (hc.goes h hg).le
  | fork hf h0 hl =>
    rw [hl, ← hc.shares h hf h0]
    exact Nat.le_add_right _ _
  | wait hw hl => exact (hl ▸ hc.waits h hw).le

/-- The events of a process and of those that can come from it, at most. -/
def cost (calls spread : L → Nat) (l : L) : Nat := 2 * (calls l + 1) * spread l

/-- A call takes from the events that are left. -/
theorem cost_lt (hc : Spreads code at_ calls spread) (h : at_ l) (hs : Successor code l l') :
    cost calls spread l' < cost calls spread l := by
  have hcalls : calls l' + 1 ≤ calls l := (hc.step h hs).2
  calc cost calls spread l'
      ≤ 2 * calls l * spread l := Nat.mul_le_mul (Nat.mul_le_mul_left 2 hcalls) (hc.spread_le h hs)
    _ < 2 * (calls l + 1) * spread l :=
      Nat.mul_lt_mul_of_pos_right (by omega) (hc.pos h)

/-- A fork takes from the events that are left more than it gives to the child. -/
theorem cost_fork (hc : Spreads code at_ calls spread) (h : at_ l) (hk : code l = .fork k)
    (h0 : pid ≠ 0) :
    cost calls spread (k pid) + cost calls spread (k 0) < cost calls spread l := by
  have hparent : calls (k pid) + 1 ≤ calls l := (hc.step h (.fork hk h0 rfl)).2
  have hchild : calls (k 0) + 1 ≤ calls l := (hc.child h hk).2
  calc cost calls spread (k pid) + cost calls spread (k 0)
      ≤ 2 * calls l * spread (k pid) + 2 * calls l * spread (k 0) :=
        Nat.add_le_add (Nat.mul_le_mul_right _ (Nat.mul_le_mul_left 2 hparent))
          (Nat.mul_le_mul_right _ (Nat.mul_le_mul_left 2 hchild))
    _ = 2 * calls l * spread l := by rw [← Nat.mul_add, hc.shares h hk h0]
    _ < 2 * (calls l + 1) * spread l :=
      Nat.mul_lt_mul_of_pos_right (by omega) (hc.pos h)

/-- An image has one event left, and a process of the program has more. -/
theorem two_le_cost (hc : Spreads code at_ calls spread) (h : at_ l) :
    2 ≤ cost calls spread l :=
  calc 2 = 2 * 1 * 1 := rfl
    _ ≤ 2 * (calls l + 1) * spread l :=
      Nat.mul_le_mul (Nat.mul_le_mul_left 2 (Nat.succ_pos _)) (hc.pos h)

/-- The processes of a program that spreads die out. -/
theorem diesOut (hc : Spreads code at_ calls spread) (h0 : 0 < root) (hl : at_ l) :
    DiesOut code (Sys.init root l) (spread l) := by
  have hinit : Sys.Tree at_ (Sys.init root l : Sys L Img Out) := Sys.tree_init h0 hl
  have htree : ∀ s, Reach (Sys.step code) Free (Sys.init root l) s → Sys.Tree at_ s := fun s hr =>
    hr.invariant hinit fun _ _ _ ht _ hs => Sys.step_tree hc ht hs
  refine ⟨fun s hr => ?_, ?_, ?_, fun s hr => ?_⟩
  · -- the weight of the tree does not grow, and bounds the number of its processes
    have hweight : Sys.Tree at_ s ∧
        (s.work fun _ => Life.weigh spread 1 1) ≤ spread l := by
      refine hr.invariant (I := fun s => Sys.Tree at_ s ∧
        (s.work fun _ => Life.weigh spread 1 1) ≤ spread l)
        ⟨hinit, (Sys.work_init).le⟩ fun s e s' ⟨ht, hle⟩ _ hs => ⟨Sys.step_tree hc ht hs, ?_⟩
      cases hm : e.moves with
      | true =>
        exact (Sys.work_weigh (d := 0) ht.allAt hs hm (fun h hs => hc.spread_le h hs)
          (fun h hk h0 => (hc.shares h hk h0).le) (fun h => hc.pos h) (le_refl 1)).trans hle
      | false => exact (Sys.step_work_pass hs hm).le.trans hle
    exact (Sys.length_keys_le hweight.1.allAt fun h => hc.pos h).trans hweight.2
  · have halone : Sys.Alone (Sys.init root l : Sys L Img Out) root := by
      intro q Q hQ hppid
      rw [(Sys.lookup_init hQ).2] at hppid
      exact absurd hppid h0.ne
    obtain ⟨s', hgrows⟩ := hinit.grows hc (calls l + 1) halone Sys.lookup_init_self rfl
      (Nat.lt_succ_self _)
    exact ⟨s', hgrows.reach, Nat.add_right_cancel (hgrows.count.trans (Nat.add_comm _ _))⟩
  · refine ⟨_, fun es s hex => exec_kind_le (I := Sys.Tree at_)
      (fun s => s.work fun _ => Life.weigh (cost calls spread) 1 0) _
      (fun s e s' ht _ hs => ⟨Sys.step_tree hc ht hs, ?_⟩) es hinit hex⟩
    cases hm : e.moves with
    | true =>
      exact Sys.work_weigh (d := 1) ht.allAt hs hm (fun h hs => hc.cost_lt h hs)
        (fun h hk h0 => hc.cost_fork h hk h0) (fun h => hc.two_le_cost h) (le_refl 1)
    | false => exact (Sys.step_work_pass hs hm).le
  · rintro ⟨p, P, hP, hrun⟩
    exact (htree s hr).goes_on hc s.clock hP hrun (Nat.le_add_left _ _)

end Spreads

end

end Posix
