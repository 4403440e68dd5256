import Mathlib.Data.Finset.Order
import Mathlib.Data.Set.Insert
import SchedulerComparison.Lib.Process

/-!
# What one event of the process table changes

Three kinds of facts, from which the invariants of a program are derived without unfolding
`Sys.step` again: what each call can return and leave behind (`Sys.call_fork`, `Sys.call_wait`
and the others), what an event of one process keeps of every other
(`Sys.step_running_of_ne`, `Sys.step_unreaped_of_ne`), and what of a process never changes
(`Proc.Before`, `Sys.step_before`).
-/

open Transition

namespace Posix

section
variable {L Img Out : Type}

/-- The process that an event belongs to. No process has the pid `0`. -/
def Event.pid : Event → Int
  | .call p _ | .exit p _ | .term p => p
  | .pass _ => 0

/-- A call returns its value to the process that makes it. -/
theorem Event.returns?_eq_some {e : Event} {p ret : Int} :
    e.returns? p = some ret ↔ e = .call p ret := by
  cases e with
  | call q ret' =>
    simp only [Event.returns?, Option.ite_none_right_eq_some, Option.some.injEq, Event.call.injEq]
  | exit | term | pass => simp only [Event.returns?, reduceCtorEq]

namespace Sys
variable {s s' : Sys L Img Out} {p q : Int} {P Q : Proc L Img} {l : L} {ret : Int}
  {code : L → Call L Img Out} {e : Event}

/-! ## Tables -/

@[simp] theorem lookup_put_self : (s.put p P).procs.lookup p = some P := AList.lookup_insert _

theorem lookup_put_ne (h : q ≠ p) : (s.put p P).procs.lookup q = s.procs.lookup q :=
  AList.lookup_insert_ne h

@[simp] theorem lookup_live_self {x : Life L Img} :
    (s.live p P x).procs.lookup p = some { P with life := x } := lookup_put_self

theorem lookup_live_ne {x : Life L Img} (h : q ≠ p) :
    (s.live p P x).procs.lookup q = s.procs.lookup q := lookup_put_ne h

@[simp] theorem procs_tick {made : List (Made L)} : (s.tick made).procs = s.procs := rfl
@[simp] theorem clock_tick {made : List (Made L)} : (s.tick made).clock = s.clock + 1 := rfl

/-- The children of `p` that it has not waited for. -/
def unreaped (s : Sys L Img Out) (p : Int) : Set Int :=
  {q | ∃ Q, s.procs.lookup q = some Q ∧ Q.ppid = p ∧ Q.life.isReaped = false}

/-- A process without a child to wait for has no unreaped child. -/
theorem unreaped_eq_empty (h : s.NoChild p) : s.unreaped p = ∅ := by
  refine Set.eq_empty_iff_forall_notMem.2 ?_
  rintro q ⟨Q, hq, hp, hr⟩
  have := h ⟨q, Q⟩ (AList.mem_lookup_iff.1 hq) hp
  rw [hr] at this
  cases this

/-- A process without an unreaped child has no child to wait for. -/
theorem noChild_of_unreaped (h : s.unreaped p = ∅) : s.NoChild p := by
  rintro ⟨q, Q⟩ hQ hp
  by_contra hr
  have hq : q ∈ s.unreaped p := ⟨Q, AList.mem_lookup_iff.2 hQ, hp, by simpa using hr⟩
  rw [h] at hq
  exact hq

/-- A process is at a control point when the table has it there. -/
theorem point?_eq_some :
    s.point? p = some l ↔ ∃ P, s.procs.lookup p = some P ∧ P.life = .code l := by
  simp only [point?, Option.bind_eq_some_iff]
  refine exists_congr fun P => and_congr_right fun _ => ?_
  cases P.life <;> simp only [Life.point?, Option.some.injEq, Life.code.injEq, reduceCtorEq]

/-- At first there is the root process alone. -/
theorem lookup_init {root : Int} (hq : (init root l : Sys L Img Out).procs.lookup q = some Q) :
    q = root ∧ Q = ⟨0, none, 0, .code l⟩ := by
  have hq := AList.mem_lookup_iff.1 hq
  simp only [init, AList.singleton_entries, List.mem_singleton, Sigma.mk.injEq, heq_eq_eq] at hq
  exact hq

/-! ## What a call leaves behind -/

/-- A fork fails, or it adds a child with a pid that was not in the table. -/
theorem call_fork {k : Int → L} (h : s.call p P l ret (.fork k) = some s') :
    (ret = -1 ∧ s' = s.live p P (.code (k (-1)))) ∨
    (0 < ret ∧ s.procs.lookup ret = none ∧
      s' = (s.live p P (.code (k ret))).put ret ⟨p, some l, s.clock, .code (k 0)⟩) := by
  simp only [call] at h
  split at h
  · next hr => cases h; exact .inl ⟨hr, rfl⟩
  · split at h
    · next hr => cases h; exact .inr ⟨hr.1, AList.lookup_eq_none.2 hr.2, rfl⟩
    · cases h

/-- An `execl` turns the process into the image, or returns. -/
theorem call_execl {img : Img} {k : L} (h : s.call p P l ret (.execl img k) = some s') :
    (ret = 0 ∧ s' = s.live p P (.image img)) ∨ (ret = -1 ∧ s' = s.live p P (.code k)) := by
  simp only [call] at h
  split at h
  · next hr => cases h; exact .inl ⟨hr, rfl⟩
  · split at h
    · next hr => cases h; exact .inr ⟨hr, rfl⟩
    · cases h

/-- A call that throws ends the process when it fails. -/
theorem call_throws {k : L} (h : s.call p P l ret (.throws k) = some s') :
    (ret = 0 ∧ s' = s.live p P (.code k)) ∨
    (ret ≠ 0 ∧ s' = s.live p P (.zombie none (.signaled 6) s.clock)) := by
  simp only [call] at h
  split at h
  · next hr => cases h; exact .inl ⟨hr, rfl⟩
  · next hr => cases h; exact .inr ⟨hr, rfl⟩

/-- A `wait` finds no child at all, or reaps one that has exited. -/
theorem call_wait {k : Int → L} (h : s.call p P l ret (.wait k) = some s') :
    (ret = -1 ∧ s.NoChild p ∧ s' = s.live p P (.code (k (-1)))) ∨
    (ret ≠ -1 ∧ ∃ o f img st t, s.procs.lookup ret = some ⟨p, o, f, .zombie img st t⟩ ∧
      s' = (s.put ret ⟨p, o, f, .reaped img st t s.clock⟩).live p P (.code (k ret))) := by
  simp only [call] at h
  split at h
  · next hr =>
    split at h
    · next hn => cases h; exact .inl ⟨hr, hn, rfl⟩
    · cases h
  · next hr =>
    split at h
    · next pp o f img st t hl =>
      split at h
      · next hp => cases h; subst hp; exact .inr ⟨hr, o, f, img, st, t, hl, rfl⟩
      · cases h
    · cases h

/-- A call is made by a process of the table that is at a control point. -/
theorem step_call (h : s.step code (.call p ret) = some s') :
    ∃ P l s₁, s.procs.lookup p = some P ∧ P.life = .code l ∧
      s.call p P l ret (code l) = some s₁ ∧ s' = s₁.tick [⟨p, l, ret, s.clock⟩] := by
  simp only [step] at h
  split at h
  · next pp o f l hl =>
    obtain ⟨s₁, h₁, rfl⟩ := Option.map_eq_some_iff.1 h
    exact ⟨_, l, s₁, hl, rfl, h₁, rfl⟩
  · cases h

/-- A process ends by itself as an image, or by a signal, and becomes a zombie; or time passes. -/
theorem step_end (h : s.step code e = some s') (he : ∀ p ret, e ≠ .call p ret) :
    (∃ P img st, e.moves = true ∧ s.procs.lookup e.pid = some P ∧ P.life.isRunning = true ∧
      s' = (s.live e.pid P (.zombie img st s.clock)).tick []) ∨
    ∃ time, e = .pass time ∧ 0 < time ∧ s' = { s with clock := s.clock + time } := by
  cases e with
  | call p ret => exact absurd rfl (he p ret)
  | exit p st =>
    simp only [step] at h
    split at h
    · next pp o f img hl => cases h; exact .inl ⟨_, some img, st, rfl, hl, rfl, rfl⟩
    · cases h
  | term p =>
    simp only [step] at h
    split at h
    · next P hl =>
      split at h
      · next hr => cases h; exact .inl ⟨P, none, .signaled 15, rfl, hl, hr.1, rfl⟩
      · cases h
    · cases h
  | pass time =>
    simp only [step] at h
    split at h
    · next h0 => cases h; exact .inr ⟨time, rfl, h0, rfl⟩
    · cases h

/-- `Goes t ret c l`: at time `t`, the call `c` can return `ret` and continue at `l`, and it
neither forks nor waits. -/
inductive Goes (t : Nat) (ret : Int) : Call L Img Out → L → Prop
  | execl (img : Img) (k : L) (h : ret = -1) : Goes t ret (.execl img k) k
  | kill (target : Int) (k : L) : Goes t ret (.kill target k) k
  | now (k : Nat → L) : Goes t ret (.now k) (k t)
  | print (out : Out) (k : L) : Goes t ret (.print out k) k
  | attempt (k : Bool → L) : Goes t ret (.attempt k) (k (ret == 0))
  | throws (k : L) (h : ret = 0) : Goes t ret (.throws k) k
  | skip (k : L) : Goes t ret (.skip k) k

/-- `Leaves t ret c x`: at time `t`, the call `c` can return `ret` to a process that leaves the
program for the life `x`. -/
inductive Leaves (t : Nat) (ret : Int) : Call L Img Out → Life L Img → Prop
  | execl (img : Img) (k : L) (h : ret = 0) : Leaves t ret (.execl img k) (.image img)
  | exit (status : Int) : Leaves t ret (.exit status) (.zombie none (.exited status) t)
  | throws (k : L) (h : ret ≠ 0) : Leaves t ret (.throws k) (.zombie none (.signaled 6) t)

/-- A component's calls continue where the component's control points are placed. -/
theorem Goes.of_map {M : Type} {f : L → M} {t : Nat} {c : Call L Img Out} {l' : M}
    (h : Goes t ret (c.map f) l') : ∃ l, Goes t ret c l ∧ l' = f l := by
  cases c with
  | fork | wait | exit | undefined => cases h
  | execl img k => cases h with | execl _ _ hr => exact ⟨k, .execl img k hr, rfl⟩
  | kill target k => cases h; exact ⟨k, .kill target k, rfl⟩
  | now k => cases h; exact ⟨k t, .now k, rfl⟩
  | print out k => cases h; exact ⟨k, .print out k, rfl⟩
  | attempt k => cases h; exact ⟨k (ret == 0), .attempt k, rfl⟩
  | throws k => cases h with | throws _ hr => exact ⟨k, .throws k hr, rfl⟩
  | skip k => cases h; exact ⟨k, .skip k, rfl⟩

/-- A life that a running process can go on with at time `now`: it is not reaped, and if it has
exited it did so now. -/
structure Next (now : Nat) (x : Life L Img) : Prop where
  isReaped : x.isReaped = false
  exitedAt : ∀ t ∈ x.exitedAt?, t = now

theorem Next.goes {now : Nat} : Next now (.code l : Life L Img) := ⟨rfl, nofun⟩

theorem Next.zombie {now : Nat} {img : Option Img} {st : Status} :
    Next now (.zombie img st now : Life L Img) := ⟨rfl, fun _ h => (Option.some.inj h).symm⟩

/-- A process that leaves the program has not been waited for. -/
theorem Leaves.next {t : Nat} {c : Call L Img Out} {x : Life L Img} (h : Leaves t ret c x) :
    Next t x := by
  cases h with
  | execl => exact ⟨rfl, nofun⟩
  | exit | throws => exact .zombie

/-- A process that leaves the program is at no control point. -/
theorem Leaves.ne_code {t : Nat} {c : Call L Img Out} {x : Life L Img} (h : Leaves t ret c x) :
    x ≠ .code l := by
  cases h <;> nofun

/-- What a call can do: continue, leave the program, fork or fail to, reap a child or find
none. -/
inductive Result (s : Sys L Img Out) (p : Int) (P : Proc L Img) (l : L) (ret : Int)
    (c : Call L Img Out) (s' : Sys L Img Out) : Prop
  | goes {l' : L} (hc : Goes s.clock ret c l') (hs : s'.procs = (s.live p P (.code l')).procs)
  | leaves {x : Life L Img} (hc : Leaves s.clock ret c x)
      (hs : s'.procs = (s.live p P x).procs)
  | forkFailed {k : Int → L} (hc : c = .fork k) (hr : ret = -1)
      (hs : s'.procs = (s.live p P (.code (k (-1)))).procs)
  | forked {k : Int → L} (hc : c = .fork k) (h0 : 0 < ret) (hn : s.procs.lookup ret = none)
      (hs : s'.procs =
        ((s.live p P (.code (k ret))).put ret ⟨p, some l, s.clock, .code (k 0)⟩).procs)
  | noChild {k : Int → L} (hc : c = .wait k) (hr : ret = -1) (hn : s.NoChild p)
      (hs : s'.procs = (s.live p P (.code (k (-1)))).procs)
  | reaped {k : Int → L} {o : Option L} {f t : Nat} {img : Option Img} {st : Status}
      (hc : c = .wait k) (hr : ret ≠ -1)
      (hn : s.procs.lookup ret = some ⟨p, o, f, .zombie img st t⟩)
      (hs : s'.procs =
        ((s.put ret ⟨p, o, f, .reaped img st t s.clock⟩).live p P (.code (k ret))).procs)

/-- The results of a call are these. -/
theorem call_result {c : Call L Img Out} (h : s.call p P l ret c = some s') :
    Result s p P l ret c s' := by
  cases c with
  | fork k =>
    rcases call_fork h with ⟨hr, rfl⟩ | ⟨h0, hn, rfl⟩
    · exact .forkFailed rfl hr rfl
    · exact .forked rfl h0 hn rfl
  | execl img k =>
    rcases call_execl h with ⟨hr, rfl⟩ | ⟨hr, rfl⟩
    · exact .leaves (.execl img k hr) rfl
    · exact .goes (.execl img k hr) rfl
  | wait k =>
    rcases call_wait h with ⟨hr, hn, rfl⟩ | ⟨hr, o, f, img, st, t, hn, rfl⟩
    · exact .noChild rfl hr hn rfl
    · exact .reaped rfl hr hn rfl
  | kill target k => cases h; exact .goes (.kill target k) rfl
  | exit status => cases h; exact .leaves (.exit status) rfl
  | now k => cases h; exact .goes (.now k) rfl
  | print out k => cases h; exact .goes (.print out k) rfl
  | attempt k => cases h; exact .goes (.attempt k) rfl
  | throws k =>
    rcases call_throws h with ⟨hr, rfl⟩ | ⟨hr, rfl⟩
    · exact .goes (.throws k hr) rfl
    · exact .leaves (.throws k hr) rfl
  | skip k => cases h; exact .goes (.skip k) rfl
  | undefined => cases h

/-- A call that neither forks nor waits can be made at any time. -/
theorem step_of_goes {l' : L} (hp : s.procs.lookup p = some P) (hl : P.life = .code l)
    (hg : Goes s.clock ret (code l) l') :
    ∃ s', s.step code (.call p ret) = some s' ∧ s'.procs = (s.live p P (.code l')).procs := by
  obtain ⟨pp, o, f, x⟩ := P
  subst hl
  suffices ∃ s₁, s.call p ⟨pp, o, f, .code l⟩ l ret (code l) = some s₁ ∧
      s₁.procs = (s.live p ⟨pp, o, f, .code l⟩ (.code l')).procs by
    obtain ⟨s₁, h₁, hs₁⟩ := this
    exact ⟨s₁.tick [⟨p, l, ret, s.clock⟩], by simp only [step, hp, h₁, Option.map_some], hs₁⟩
  generalize code l = d at hg
  cases hg with
  | execl img k hr | throws k hr => subst hr; exact ⟨_, rfl, rfl⟩
  | _ => exact ⟨_, rfl, rfl⟩

/-- What a process prints is added to the output. -/
theorem step_of_print (ret : Int) {k : L} {out : Out} (hp : s.procs.lookup p = some P)
    (hl : P.life = .code l) (hc : code l = .print out k) :
    ∃ s', s.step code (.call p ret) = some s' ∧ s'.procs = (s.live p P (.code k)).procs ∧
      s'.printed = s.printed ++ [⟨p, l, out⟩] := by
  obtain ⟨pp, o, f, x⟩ := P
  subst hl
  simp only [step, hp, hc, call, Option.map_some]
  exact ⟨_, rfl, rfl, rfl⟩

/-- A wait for a child that has exited can reap it. -/
theorem step_of_wait {k : Int → L} {o : Option L} {f t : Nat} {img : Option Img} {st : Status}
    (hp : s.procs.lookup p = some P) (hl : P.life = .code l) (hc : code l = .wait k)
    (hq : q ≠ -1) (hz : s.procs.lookup q = some ⟨p, o, f, .zombie img st t⟩) :
    ∃ s', s.step code (.call p q) = some s' ∧
      s'.procs.lookup p = some { P with life := .code (k q) } := by
  obtain ⟨pp, o', f', x⟩ := P
  subst hl
  simp only [step, hp, hc, call, if_neg hq, hz, if_true, Option.map_some]
  exact ⟨_, rfl, lookup_live_self⟩

/-- A wait without a child to wait for returns. -/
theorem step_of_noChild {k : Int → L} (hp : s.procs.lookup p = some P) (hl : P.life = .code l)
    (hc : code l = .wait k) (hn : s.NoChild p) :
    ∃ s', s.step code (.call p (-1)) = some s' ∧
      s'.procs.lookup p = some { P with life := .code (k (-1)) } := by
  obtain ⟨pp, o, f, x⟩ := P
  subst hl
  simp only [step, hp, hc, call, if_true, if_pos hn, Option.map_some]
  exact ⟨_, rfl, lookup_live_self⟩

/-- A call with a meaning that neither forks nor waits can return `0`. -/
theorem step_of_call (hp : s.procs.lookup p = some P) (hl : P.life = .code l)
    (hf : ∀ k, code l ≠ .fork k) (hw : ∀ k, code l ≠ .wait k) (hu : code l ≠ .undefined) :
    ∃ s', s.step code (.call p 0) = some s' := by
  obtain ⟨pp, o, f, x⟩ := P
  subst hl
  simp only [step, hp]
  generalize code l = d at hf hw hu
  cases d with
  | fork k => exact absurd rfl (hf k)
  | wait k => exact absurd rfl (hw k)
  | undefined => exact absurd rfl hu
  | _ => exact ⟨_, rfl⟩

/-- Some pid is not in the table. -/
theorem exists_fresh (s : Sys L Img Out) : ∃ c, 0 < c ∧ c ∉ s.procs := by
  obtain ⟨m, hm⟩ := s.procs.keys.toFinset.exists_le
  refine ⟨max m 0 + 1, by omega, fun hc => ?_⟩
  have := hm _ (List.mem_toFinset.2 (AList.mem_keys.1 hc))
  omega

/-- A fork can succeed. -/
theorem step_of_fork {k : Int → L} (hp : s.procs.lookup p = some P) (hl : P.life = .code l)
    (hc : code l = .fork k) : ∃ c s', 0 < c ∧ s.step code (.call p c) = some s' := by
  obtain ⟨c, h0, hfresh⟩ := s.exists_fresh
  have hneg : c ≠ -1 := by omega
  have hnew : 0 < c ∧ c ∉ s.procs := ⟨h0, hfresh⟩
  obtain ⟨pp, o, f, x⟩ := P
  subst hl
  have hs : ∃ s', s.step code (.call p c) = some s' := by
    simp only [step, hp, hc, call, if_neg hneg, if_pos hnew]
    exact ⟨_, rfl⟩
  obtain ⟨s', hs⟩ := hs
  exact ⟨c, s', h0, hs⟩

/-- A process at the control point can come to its end by its own events alone. -/
inductive Ends (code : L → Call L Img Out) : L → Prop
  | exit {l : L} {status : Int} (hc : code l = .exit status) : Ends code l
  | execl {l k : L} {img : Img} (hc : code l = .execl img k) : Ends code l
  | goes {l l' : L} (hg : ∀ n, Goes n 0 (code l) l') (h : Ends code l') : Ends code l

/-- The end is reached while the other processes stay as they are. -/
theorem Ends.reach (h : Ends code l) (hp : s.procs.lookup p = some P) (hl : P.life = .code l) :
    ∃ s' img st t, Reach (step code) Free s s' ∧
      s'.procs.lookup p = some { P with life := .zombie img st t } ∧
      ∀ q ≠ p, s'.procs.lookup q = s.procs.lookup q := by
  induction h generalizing s P with
  | @exit l status hc =>
    obtain ⟨pp, o, f, x⟩ := P
    subst hl
    have hs : s.step code (.call p 0) = some ((s.live p ⟨pp, o, f, .code l⟩
        (.zombie none (.exited status) s.clock)).tick [⟨p, l, 0, s.clock⟩]) := by
      simp only [step, hp, hc, call, Option.map_some]
    exact ⟨_, _, _, _, .tail .refl trivial hs, lookup_live_self, fun q hq => lookup_live_ne hq⟩
  | @execl l k img hc =>
    obtain ⟨pp, o, f, x⟩ := P
    subst hl
    have hs : s.step code (.call p 0) = some ((s.live p ⟨pp, o, f, .code l⟩ (.image img)).tick
        [⟨p, l, 0, s.clock⟩]) := by
      simp only [step, hp, hc, call, if_true, Option.map_some]
    generalize hs₁ : (s.live p ⟨pp, o, f, .code l⟩ (.image img)).tick [⟨p, l, 0, s.clock⟩] = s₁
      at hs
    have hp₁ : s₁.procs.lookup p = some ⟨pp, o, f, .image img⟩ := by
      subst hs₁
      exact lookup_live_self
    have hexit : s₁.step code (.exit p (.exited 0)) =
        some ((s₁.put p ⟨pp, o, f, .zombie (some img) (.exited 0) s₁.clock⟩).tick []) := by
      simp only [step, hp₁]
    refine ⟨_, _, _, _, .tail (.tail .refl trivial hs) trivial hexit, lookup_put_self,
      fun q hq => ?_⟩
    rw [procs_tick, lookup_put_ne hq, ← hs₁]
    exact lookup_live_ne hq
  | @goes l l' hg _ ih =>
    obtain ⟨s₁, hs, hs₁⟩ := step_of_goes hp hl (hg s.clock)
    obtain ⟨s', img, st, t, hr, hp', ho⟩ := ih (by rw [hs₁]; exact lookup_live_self) rfl
    refine ⟨s', img, st, t, (Reach.tail .refl trivial hs).trans hr, hp', fun q hq => ?_⟩
    rw [ho q hq, hs₁]
    exact lookup_live_ne hq

/-! ## The change an event makes -/

/-- What an event of `p` does to the table: `p` goes on with another life, or forks a child `c`,
or reaps its child `c`; the passing of time leaves the table as it is. -/
inductive Change (s : Sys L Img Out) (p : Int) (s' : Sys L Img Out) : Prop
  | own {P : Proc L Img} {x : Life L Img} (hp : s.procs.lookup p = some P)
      (hr : P.life.isRunning = true) (hx : Next s.clock x)
      (hp' : s'.procs.lookup p = some { P with life := x })
      (ho : ∀ q ≠ p, s'.procs.lookup q = s.procs.lookup q)
  | fork {P C : Proc L Img} {x : Life L Img} {c : Int} (hp : s.procs.lookup p = some P)
      (hr : P.life.isRunning = true) (hx : Next s.clock x) (hc : s.procs.lookup c = none)
      (h0 : 0 < c) (hC : C.ppid = p ∧ C.forkedAt = s.clock ∧ ∃ l, C.life = .code l)
      (hp' : s'.procs.lookup p = some { P with life := x })
      (hc' : s'.procs.lookup c = some C)
      (ho : ∀ q ≠ p, q ≠ c → s'.procs.lookup q = s.procs.lookup q)
  | wait {P : Proc L Img} {x : Life L Img} {c : Int} {o : Option L} {f t : Nat}
      {img : Option Img} {st : Status} (hp : s.procs.lookup p = some P)
      (hr : P.life.isRunning = true) (hx : Next s.clock x)
      (hc : s.procs.lookup c = some ⟨p, o, f, .zombie img st t⟩)
      (hp' : s'.procs.lookup p = some { P with life := x })
      (hc' : s'.procs.lookup c = some ⟨p, o, f, .reaped img st t s.clock⟩)
      (ho : ∀ q ≠ p, q ≠ c → s'.procs.lookup q = s.procs.lookup q)
  | pass (hs : s'.procs = s.procs)

/-- A process that goes on with a life it may still be waited for in. -/
theorem Change.live {x : Life L Img} (hp : s.procs.lookup p = some P)
    (hr : P.life.isRunning = true) (hx : Next s.clock x)
    (hs : s'.procs = (s.live p P x).procs) : Change s p s' :=
  .own hp hr hx (by rw [hs]; exact lookup_live_self) fun q hq => by rw [hs]; exact lookup_live_ne hq

/-- Every call makes one of these changes. -/
theorem call_change (hp : s.procs.lookup p = some P) (hl : P.life = .code l)
    (h : s.call p P l ret (code l) = some s') : Change s p s' := by
  have hr : P.life.isRunning = true := by rw [hl]; rfl
  cases call_result h with
  | goes _ hs | forkFailed _ _ hs | noChild _ _ _ hs => exact .live hp hr .goes hs
  | leaves hc hs => exact .live hp hr hc.next hs
  | @forked k _ h0 hn hs =>
    have hne : p ≠ ret := by rintro rfl; rw [hn] at hp; cases hp
    refine .fork (x := .code (k ret)) (C := ⟨p, some l, s.clock, .code (k 0)⟩) hp hr .goes hn h0
      ⟨rfl, rfl, _, rfl⟩ ?_ ?_ ?_
    · rw [hs, lookup_put_ne hne]; exact lookup_live_self
    · rw [hs]; exact lookup_put_self
    · intro q hq hq'; rw [hs, lookup_put_ne hq', lookup_live_ne hq]
  | @reaped k _ _ _ _ _ _ _ hn hs =>
    have hne : ret ≠ p := by rintro rfl; rw [hn] at hp; cases hp; cases hl
    refine .wait (x := .code (k ret)) hp hr .goes hn ?_ ?_ ?_
    · rw [hs]; exact lookup_live_self
    · rw [hs, lookup_live_ne hne]; exact lookup_put_self
    · intro q hq hq'; rw [hs, lookup_live_ne hq, lookup_put_ne hq']

/-- Every event makes one of these changes. -/
theorem step_change (h : s.step code e = some s') : Change s e.pid s' := by
  by_cases he : ∃ p ret, e = .call p ret
  · obtain ⟨p, ret, rfl⟩ := he
    obtain ⟨P, l, s₁, hp, hl, hc, rfl⟩ := step_call h
    cases call_change hp hl hc with
    | own h1 h2 h3 h4 h5 => exact .own h1 h2 h3 h4 h5
    | fork h1 h2 h3 h4 h5 h6 h7 h8 h9 => exact .fork h1 h2 h3 h4 h5 h6 h7 h8 h9
    | wait h1 h2 h3 h4 h5 h6 h7 => exact .wait h1 h2 h3 h4 h5 h6 h7
    | pass h1 => exact .pass h1
  · rcases step_end h fun p ret h => he ⟨p, ret, h⟩ with
      ⟨P, img, st, -, hp, hr, rfl⟩ | ⟨time, rfl, -, rfl⟩
    · exact .live hp hr .zombie rfl
    · exact .pass rfl

/-- An event that is not just time that passes belongs to a process that is running. -/
theorem running_of_moves (h : s.step code e = some s') (hm : e.moves = true) :
    ∃ P, s.procs.lookup e.pid = some P ∧ P.life.isRunning = true := by
  by_cases he : ∃ p ret, e = .call p ret
  · obtain ⟨p, ret, rfl⟩ := he
    obtain ⟨P, l, s₁, hp, hl, -⟩ := step_call h
    exact ⟨P, hp, by rw [hl]; rfl⟩
  · rcases step_end h fun p ret h => he ⟨p, ret, h⟩ with
      ⟨P, img, st, -, hp, hr, -⟩ | ⟨time, rfl, -⟩
    · exact ⟨P, hp, hr⟩
    · cases hm

/-- A call itself takes no time, and is not yet among those that were made. -/
theorem call_clock {c : Call L Img Out} (h : s.call p P l ret c = some s') :
    s'.clock = s.clock ∧ s'.calls = s.calls := by
  cases c with
  | fork k => rcases call_fork h with ⟨-, rfl⟩ | ⟨-, -, rfl⟩ <;> exact ⟨rfl, rfl⟩
  | execl img k => rcases call_execl h with ⟨-, rfl⟩ | ⟨-, rfl⟩ <;> exact ⟨rfl, rfl⟩
  | wait k =>
    rcases call_wait h with ⟨-, -, rfl⟩ | ⟨-, _, _, _, _, _, -, rfl⟩ <;> exact ⟨rfl, rfl⟩
  | throws k => rcases call_throws h with ⟨-, rfl⟩ | ⟨-, rfl⟩ <;> exact ⟨rfl, rfl⟩
  | kill _ k | print _ k | exit _ | now k | attempt k | skip k => cases h; exact ⟨rfl, rfl⟩
  | undefined => cases h

/-- Every event takes some time. -/
theorem step_clock (h : s.step code e = some s') : s.clock < s'.clock := by
  by_cases he : ∃ p ret, e = .call p ret
  · obtain ⟨p, ret, rfl⟩ := he
    obtain ⟨P, l, s₁, -, -, hc, rfl⟩ := step_call h
    rw [clock_tick, (call_clock hc).1]
    exact Nat.lt_succ_self _
  · rcases step_end h fun p ret h => he ⟨p, ret, h⟩ with
      ⟨P, img, st, -, -, -, rfl⟩ | ⟨time, rfl, h0, rfl⟩
    · exact Nat.lt_succ_self _
    · exact Nat.lt_add_of_pos_right h0

/-- An event is a call that is made, or adds none to those that were made. -/
theorem step_calls (h : s.step code e = some s') :
    (s'.calls = s.calls ∧ ∀ p ret, e ≠ .call p ret) ∨
    ∃ p ret P l, e = .call p ret ∧ s.procs.lookup p = some P ∧ P.life = .code l ∧
      s'.calls = s.calls ++ [⟨p, l, ret, s.clock⟩] := by
  by_cases he : ∃ p ret, e = .call p ret
  · obtain ⟨p, ret, rfl⟩ := he
    obtain ⟨P, l, s₁, hp, hl, hc, rfl⟩ := step_call h
    exact .inr ⟨p, ret, P, l, rfl, hp, hl, by rw [tick, (call_clock hc).2]⟩
  · have hne : ∀ p ret, e ≠ .call p ret := fun p ret h => he ⟨p, ret, h⟩
    rcases step_end h hne with ⟨P, img, st, -, -, -, rfl⟩ | ⟨time, rfl, -, rfl⟩
    · exact .inl ⟨List.append_nil _, hne⟩
    · exact .inl ⟨rfl, hne⟩

/-- An event adds to the calls of process `p` when it is a call of it. -/
theorem step_callsOf (h : s.step code e = some s') (p : Int) :
    (s'.callsOf p = s.callsOf p ∧ ∀ ret, e ≠ .call p ret) ∨
      ∃ ret l, e = .call p ret ∧ s.point? p = some l ∧
        s'.callsOf p = s.callsOf p ++ [⟨p, l, ret, s.clock⟩] := by
  rcases step_calls h with ⟨hcalls, hne⟩ | ⟨q, ret, P, l, rfl, hP, hl, hcalls⟩
  · exact .inl ⟨by rw [callsOf, hcalls, callsOf], hne p⟩
  · by_cases hqp : q = p
    · subst hqp
      refine .inr ⟨ret, l, rfl, point?_eq_some.2 ⟨P, hP, hl⟩, ?_⟩
      rw [callsOf, hcalls, List.filter_append, List.filter_singleton, callsOf]
      simp only [decide_true, Bool.cond_true]
    · refine .inl ⟨?_, fun _ he => hqp (Event.call.inj he).1⟩
      rw [callsOf, hcalls, List.filter_append, List.filter_singleton, callsOf]
      simp only [hqp, decide_false, Bool.cond_false, List.append_nil]

/-! ## What an event keeps -/

/-- What of a process never changes: who forked it, where and when, and when it exited. -/
structure Before (P Q : Proc L Img) : Prop where
  ppid : Q.ppid = P.ppid
  origin : Q.origin = P.origin
  forkedAt : Q.forkedAt = P.forkedAt
  exitedAt : ∀ t, P.life.exitedAt? = some t → Q.life.exitedAt? = some t
  reaped : P.life.isReaped = true → Q = P

/-- A process that is running has not exited. -/
theorem exitedAt?_of_running {x : Life L Img} (h : x.isRunning = true) : x.exitedAt? = none := by
  cases x with
  | code | image => rfl
  | zombie | reaped => cases h

/-- A process that is running has not been reaped. -/
theorem isReaped_of_running {x : Life L Img} (h : x.isRunning = true) : x.isReaped = false := by
  cases x with
  | code | image => rfl
  | zombie | reaped => cases h

/-- A process that has not exited is running. -/
theorem isRunning_of_exitedAt? {x : Life L Img} (h : x.exitedAt? = none) : x.isRunning = true := by
  cases x with
  | code | image => rfl
  | zombie | reaped => cases h

/-- A running process keeps its past, whatever it goes on with. -/
theorem Before.running {x : Life L Img} (h : P.life.isRunning = true) :
    Before P { P with life := x } where
  ppid := rfl
  origin := rfl
  forkedAt := rfl
  exitedAt t ht := by rw [exitedAt?_of_running h] at ht; cases ht
  reaped hr := by rw [isReaped_of_running h] at hr; cases hr

/-- A process stays in the table, with its past. -/
theorem step_before (h : s.step code e = some s') (hq : s.procs.lookup q = some Q) :
    ∃ Q', s'.procs.lookup q = some Q' ∧ Before Q Q' := by
  have hrefl : Before Q Q := ⟨rfl, rfl, rfl, fun _ h => h, fun _ => rfl⟩
  by_cases hqp : q = e.pid
  · subst hqp
    cases step_change h with
    | own hp hr _ hp' _ | fork hp hr _ _ _ _ hp' _ _ | wait hp hr _ _ hp' _ _ =>
      cases hq.symm.trans hp
      exact ⟨_, hp', .running hr⟩
    | pass hs => exact ⟨Q, hs ▸ hq, hrefl⟩
  · cases step_change h with
    | pass hs => exact ⟨Q, hs ▸ hq, hrefl⟩
    | own _ _ _ _ ho => exact ⟨Q, (ho q hqp).trans hq, hrefl⟩
    | @fork _ _ _ c _ _ _ hc _ _ _ _ ho =>
      have hqc : q ≠ c := by rintro rfl; rw [hc] at hq; cases hq
      exact ⟨Q, (ho q hqp hqc).trans hq, hrefl⟩
    | @wait _ _ c _ _ _ _ _ _ _ _ hc _ hc' ho =>
      by_cases hqc : q = c
      · subst hqc
        cases hq.symm.trans hc
        exact ⟨_, hc', rfl, rfl, rfl, fun _ h => h, fun h => by cases h⟩
      · exact ⟨Q, (ho q hqp hqc).trans hq, hrefl⟩

/-- Every pid of the table is positive. -/
def Positive (s : Sys L Img Out) : Prop := ∀ q Q, s.procs.lookup q = some Q → 0 < q

theorem positive_init {root : Int} (h : 0 < root) : Positive (init root l : Sys L Img Out) := by
  intro q Q hq
  exact (lookup_init hq).1 ▸ h

/-- A fork returns a positive pid, so pids stay positive. -/
theorem step_positive (hs : s.step code e = some s') (h : Positive s) : Positive s' := by
  intro q Q hq
  by_cases hqp : q = e.pid
  · cases step_change hs with
    | own hp | fork hp | wait hp => exact h q _ (hqp ▸ hp)
    | pass hs => exact h q Q (hs ▸ hq)
  · cases step_change hs with
    | pass hs => exact h q Q (hs ▸ hq)
    | own _ _ _ _ ho => exact h q Q ((ho q hqp).symm.trans hq)
    | @fork _ _ _ c _ _ _ _ h0 _ _ _ ho =>
      by_cases hqc : q = c
      · exact hqc ▸ h0
      · exact h q Q ((ho q hqp hqc).symm.trans hq)
    | @wait _ _ c _ _ _ _ _ _ _ _ hc _ _ ho =>
      by_cases hqc : q = c
      · exact h q _ (hqc ▸ hc)
      · exact h q Q ((ho q hqp hqc).symm.trans hq)

/-- No process with a positive pid is the child that `-1` would name. -/
theorem Positive.not_unreaped (h : Positive s) {r : Int} : -1 ∉ s.unreaped r := by
  rintro ⟨Q, hQ, -⟩
  have := h _ _ hQ
  omega

theorem Before.trans {R : Proc L Img} (h : Before P Q) (h' : Before Q R) : Before P R where
  ppid := h'.ppid.trans h.ppid
  origin := h'.origin.trans h.origin
  forkedAt := h'.forkedAt.trans h.forkedAt
  exitedAt t ht := h'.exitedAt t (h.exitedAt t ht)
  reaped hr := by
    obtain rfl := h.reaped hr
    exact h'.reaped hr

/-- A process stays in the table along a run, with its past. -/
theorem reach_before {C : Sys L Img Out → Event → Prop} (h : Reach (step code) C s s')
    (hq : s.procs.lookup q = some Q) : ∃ Q', s'.procs.lookup q = some Q' ∧ Before Q Q' := by
  induction h with
  | refl => exact ⟨Q, hq, rfl, rfl, rfl, fun _ h => h, fun _ => rfl⟩
  | tail _ _ hs ih =>
    obtain ⟨Q', hq', hb⟩ := ih
    obtain ⟨Q'', hq'', hb'⟩ := step_before hs hq'
    exact ⟨Q'', hq'', hb.trans hb'⟩

/-- A process that goes on unreaped keeps everybody's unreaped children. -/
theorem unreaped_live {x : Life L Img} {r : Int} (hp : s.procs.lookup p = some P)
    (hr : P.life.isReaped = false) (hx : x.isReaped = false)
    (hs : s'.procs = (s.live p P x).procs) : s'.unreaped r = s.unreaped r := by
  ext q
  simp only [unreaped, Set.mem_ofPred_eq, hs]
  by_cases hq : q = p
  · subst hq
    simp only [lookup_live_self, hp, Option.some.injEq, exists_eq_left', hx, hr]
  · rw [lookup_live_ne hq]

/-- A fork adds the child to the unreaped children of its parent. -/
theorem unreaped_fork {x y : Life L Img} {c : Int} {o : Option L} {f : Nat}
    (hp : s.procs.lookup p = some P) (hr : P.life.isReaped = false) (hx : x.isReaped = false)
    (hy : y.isReaped = false) (hc : s.procs.lookup c = none)
    (hs : s'.procs = ((s.live p P x).put c ⟨p, o, f, y⟩).procs) :
    s'.unreaped p = insert c (s.unreaped p) := by
  ext q
  have hlive : (s.live p P x).unreaped p = s.unreaped p := unreaped_live hp hr hx rfl
  rw [Set.mem_insert_iff, ← hlive]
  simp only [unreaped, Set.mem_ofPred_eq, hs]
  by_cases hq : q = c
  · subst hq
    simp only [lookup_put_self, Option.some.injEq, exists_eq_left', hy, and_self, true_or]
  · simp only [lookup_put_ne hq, hq, false_or]

/-- A `wait` takes the child from the unreaped children of its parent. -/
theorem unreaped_wait {x y : Life L Img} {c r : Int} {o : Option L} {f : Nat}
    (hp : s.procs.lookup p = some P) (hr : P.life.isReaped = false) (hx : x.isReaped = false)
    (hy : y.isReaped = true) (hne : p ≠ c)
    (hs : s'.procs = ((s.put c ⟨r, o, f, y⟩).live p P x).procs) :
    s'.unreaped p = s.unreaped p \ {c} := by
  ext q
  rw [unreaped_live (by rw [lookup_put_ne hne]; exact hp) hr hx hs]
  simp only [Set.mem_sdiff, Set.mem_singleton_iff, unreaped, Set.mem_ofPred_eq]
  by_cases hq : q = c
  · subst hq
    simp only [lookup_put_self, Option.some.injEq, exists_eq_left', hy, Bool.true_eq_false,
      and_false, not_true_eq_false]
  · simp only [lookup_put_ne hq, hq, not_false_eq_true, and_true]

/-- An event of another process leaves the unreaped children of `p` as they are. -/
theorem step_unreaped_of_ne (h : s.step code e = some s') (hne : e.pid ≠ p) :
    s'.unreaped p = s.unreaped p := by
  ext q
  have key : ∀ {P : Proc L Img} {x : Life L Img}, P.life.isRunning = true →
      x.isReaped = false → s.procs.lookup e.pid = some P →
      s'.procs.lookup e.pid = some { P with life := x } →
      (e.pid ∈ s'.unreaped p ↔ e.pid ∈ s.unreaped p) := by
    intro P x hr hx hp hp'
    have hr' : P.life.isReaped = false := isReaped_of_running hr
    simp only [unreaped, Set.mem_ofPred_eq, hp, hp', Option.some.injEq, exists_eq_left', hx, hr']
  have other : s'.procs.lookup q = s.procs.lookup q → (q ∈ s'.unreaped p ↔ q ∈ s.unreaped p) := by
    intro ho
    simp only [unreaped, Set.mem_ofPred_eq, ho]
  by_cases hq : q = e.pid
  · subst hq
    cases step_change h with
    | own hp hr hx hp' _ | fork hp hr hx _ _ _ hp' _ _ | wait hp hr hx _ hp' _ _ =>
      exact key hr hx.isReaped hp hp'
    | pass hs => exact other (by rw [hs])
  · cases step_change h with
    | pass hs => exact other (by rw [hs])
    | own _ _ _ _ ho => exact other (ho q hq)
    | @fork _ C _ c _ _ _ hc _ hC _ hc' ho =>
      by_cases hqc : q = c
      · subst hqc
        constructor
        · rintro ⟨Q, h1, h2, -⟩
          cases h1.symm.trans hc'
          exact absurd (hC.1.symm.trans h2) hne
        · rintro ⟨Q, h1, -⟩; rw [hc] at h1; cases h1
      · exact other (ho q hq hqc)
    | @wait _ _ c _ _ _ _ _ _ _ _ hc _ hc' ho =>
      by_cases hqc : q = c
      · subst hqc
        constructor
        · rintro ⟨Q, h1, h2, -⟩
          cases h1.symm.trans hc'
          exact absurd h2 hne
        · rintro ⟨Q, h1, h2, -⟩
          cases h1.symm.trans hc
          exact absurd h2 hne
      · exact other (ho q hq hqc)

/-- A process that runs after an event of another one ran before it, or was just forked. -/
theorem step_running_of_ne (h : s.step code e = some s') (hne : e.pid ≠ p)
    (hp : s'.procs.lookup p = some P) (hr : P.life.isRunning = true) :
    s.procs.lookup p = some P ∨ s.procs.lookup p = none := by
  cases step_change h with
  | pass hs => exact .inl (hs ▸ hp)
  | own _ _ _ _ ho => exact .inl ((ho p hne.symm).symm.trans hp)
  | @fork _ _ _ c _ _ _ hc _ _ _ _ ho =>
    by_cases hpc : p = c
    · subst hpc; exact .inr hc
    · exact .inl ((ho p hne.symm hpc).symm.trans hp)
  | @wait _ _ c _ _ _ _ _ _ _ _ _ _ hc' ho =>
    by_cases hpc : p = c
    · subst hpc; cases hc'.symm.trans hp; cases hr
    · exact .inl ((ho p hne.symm hpc).symm.trans hp)

/-- An event of another process leaves a process where it is. -/
theorem step_point?_of_ne (h : s.step code e = some s') (hne : e.pid ≠ p)
    (hp : s.procs.lookup p = some P) : s'.point? p = s.point? p := by
  cases step_change h with
  | pass hs => rw [point?, point?, hs]
  | own _ _ _ _ ho => rw [point?, point?, ho p hne.symm]
  | @fork _ _ _ c _ _ _ hc _ _ _ _ ho =>
    have hpc : p ≠ c := by rintro rfl; rw [hc] at hp; cases hp
    rw [point?, point?, ho p hne.symm hpc]
  | @wait _ _ c _ _ _ _ _ _ _ _ hc _ hc' ho =>
    by_cases hpc : p = c
    · subst hpc
      rw [point?, point?, hc, hc']
      rfl
    · rw [point?, point?, ho p hne.symm hpc]

/-! ## Where a process comes from -/

/-- How a process comes to be `P'`, at the control point `l'`, and what becomes of its unreaped
children: it was there, its own call brought it there, or it was just forked. -/
inductive Arrives (code : L → Call L Img Out) (s s' : Sys L Img Out) (e : Event) (p : Int)
    (P' : Proc L Img) (l' : L) : Prop
  | same (he : ∀ ret, e ≠ .call p ret) (hp : s.procs.lookup p = some P')
      (hu : s'.unreaped p = s.unreaped p)
  | goes {P : Proc L Img} {l : L} {ret : Int} (he : e = .call p ret)
      (hp : s.procs.lookup p = some P) (hl : P.life = .code l)
      (hg : Goes s.clock ret (code l) l') (hu : s'.unreaped p = s.unreaped p)
  | forkFailed {P : Proc L Img} {l : L} {k : Int → L} (he : e = .call p (-1))
      (hp : s.procs.lookup p = some P) (hl : P.life = .code l) (hc : code l = .fork k)
      (hl' : l' = k (-1)) (hu : s'.unreaped p = s.unreaped p)
  | forked {P : Proc L Img} {l : L} {ret : Int} {k : Int → L} (he : e = .call p ret)
      (hp : s.procs.lookup p = some P) (hl : P.life = .code l) (hc : code l = .fork k)
      (hl' : l' = k ret) (h0 : 0 < ret) (hn : s.procs.lookup ret = none)
      (hr : s'.procs.lookup ret = some ⟨p, some l, s.clock, .code (k 0)⟩)
      (hu : s'.unreaped p = insert ret (s.unreaped p))
  | noChild {P : Proc L Img} {l : L} {k : Int → L} (he : e = .call p (-1))
      (hp : s.procs.lookup p = some P) (hl : P.life = .code l) (hc : code l = .wait k)
      (hl' : l' = k (-1)) (hn : s.unreaped p = ∅) (hu : s'.unreaped p = ∅)
  | reaped {P : Proc L Img} {l : L} {ret : Int} {k : Int → L} {o : Option L} {f t : Nat}
      {img : Option Img} {st : Status} (he : e = .call p ret)
      (hp : s.procs.lookup p = some P) (hl : P.life = .code l) (hc : code l = .wait k)
      (hl' : l' = k ret) (hr : ret ≠ -1)
      (hz : s.procs.lookup ret = some ⟨p, o, f, .zombie img st t⟩)
      (hz' : s'.procs.lookup ret = some ⟨p, o, f, .reaped img st t s.clock⟩)
      (hu : s'.unreaped p = s.unreaped p \ {ret})
  | born {q : Int} {Q : Proc L Img} {l : L} {k : Int → L} (he : e = .call q p)
      (hq : s.procs.lookup q = some Q) (hl : Q.life = .code l) (hc : code l = .fork k)
      (hl' : l' = k 0) (h0 : 0 < p) (hn : s.procs.lookup p = none)
      (hP' : P' = ⟨q, some l, s.clock, .code (k 0)⟩)

/-- A process that made a call and is at a control point arrived there by it. -/
theorem call_arrives {P' : Proc L Img} {l' : L} (hp : s.procs.lookup p = some P)
    (hl : P.life = .code l) (hc : s.call p P l ret (code l) = some s')
    (hp' : s'.procs.lookup p = some P') (hl' : P'.life = .code l') :
    Arrives code s (s'.tick [⟨p, l, ret, s.clock⟩]) (.call p ret) p P' l' := by
  have hr : P.life.isReaped = false := by rw [hl]; rfl
  -- the point the process is at afterwards is the one its call continues at
  have life_eq : ∀ {x : Life L Img}, s'.procs.lookup p = some { P with life := x } →
      x = .code l' := fun hx => by cases hp'.symm.trans hx; exact hl'
  cases call_result hc with
  | goes hg hs' =>
    cases life_eq (by rw [hs']; exact lookup_live_self)
    exact .goes rfl hp hl hg (unreaped_live hp hr rfl hs')
  | leaves hx hs' => exact absurd (life_eq (by rw [hs']; exact lookup_live_self)) hx.ne_code
  | forkFailed hf hret hs' =>
    subst hret
    cases life_eq (by rw [hs']; exact lookup_live_self)
    exact .forkFailed rfl hp hl hf rfl (unreaped_live hp hr rfl hs')
  | forked hf h0 hn hs' =>
    have hne : p ≠ ret := by rintro rfl; rw [hn] at hp; cases hp
    cases life_eq (by rw [hs', lookup_put_ne hne]; exact lookup_live_self)
    exact .forked rfl hp hl hf rfl h0 hn (by rw [procs_tick, hs']; exact lookup_put_self)
      (unreaped_fork hp hr rfl rfl hn hs')
  | noChild hw hret hn hs' =>
    subst hret
    have hn := unreaped_eq_empty hn
    cases life_eq (by rw [hs']; exact lookup_live_self)
    exact .noChild rfl hp hl hw rfl hn ((unreaped_live hp hr rfl hs').trans hn)
  | reaped hw hret hn hs' =>
    have hne : p ≠ ret := by rintro rfl; rw [hn] at hp; cases hp; cases hl
    cases life_eq (by rw [hs']; exact lookup_live_self)
    refine .reaped rfl hp hl hw rfl hret hn ?_ (unreaped_wait hp hr rfl rfl hne hs')
    rw [procs_tick, hs', lookup_live_ne hne.symm]
    exact lookup_put_self

/-- A process that is new in the table was forked by the event. -/
theorem step_born {P' : Proc L Img} (h : s.step code e = some s') (hn : s.procs.lookup p = none)
    (hp' : s'.procs.lookup p = some P') :
    ∃ q Q l k, e = .call q p ∧ s.procs.lookup q = some Q ∧ Q.life = .code l ∧
      code l = .fork k ∧ 0 < p ∧ P' = ⟨q, some l, s.clock, .code (k 0)⟩ := by
  have old : ∀ {q : Int} {Q : Proc L Img}, s.procs.lookup q = some Q → p ≠ q := by
    rintro q Q hq rfl
    cases hn.symm.trans hq
  have gone : s'.procs.lookup p = s.procs.lookup p → False := fun ho => by
    cases hn.symm.trans (ho.symm.trans hp')
  by_cases he : ∃ q ret, e = .call q ret
  · obtain ⟨q, ret, rfl⟩ := he
    obtain ⟨Q, l, s₁, hq, hl, hc, rfl⟩ := step_call h
    rw [procs_tick] at hp' gone
    cases call_result hc with
    | goes _ hs₁ | leaves _ hs₁ | forkFailed _ _ hs₁ | noChild _ _ _ hs₁ =>
      exact (gone (by rw [hs₁, lookup_live_ne (old hq)])).elim
    | @forked k hf h0 _ hs₁ =>
      by_cases hpr : p = ret
      · subst hpr
        rw [hs₁, lookup_put_self] at hp'
        cases hp'
        exact ⟨q, Q, l, k, rfl, hq, hl, hf, h0, rfl⟩
      · exact (gone (by rw [hs₁, lookup_put_ne hpr, lookup_live_ne (old hq)])).elim
    | reaped _ _ hz hs₁ =>
      exact (gone (by rw [hs₁, lookup_live_ne (old hq), lookup_put_ne (old hz)])).elim
  · rcases step_end h fun q ret h => he ⟨q, ret, h⟩ with
      ⟨Q, img, st, -, hq, -, rfl⟩ | ⟨time, rfl, -, rfl⟩
    · exact (gone (by rw [procs_tick, lookup_live_ne (old hq)])).elim
    · exact (gone rfl).elim

/-- A process at a control point arrived there in one of these ways. -/
theorem step_arrives {P' : Proc L Img} {l' : L} (h : s.step code e = some s')
    (hp' : s'.procs.lookup p = some P') (hl' : P'.life = .code l') :
    Arrives code s s' e p P' l' := by
  by_cases hpe : e.pid = p
  · by_cases he : ∃ q ret, e = .call q ret
    · obtain ⟨q, ret, rfl⟩ := he
      obtain rfl : q = p := hpe
      obtain ⟨P, l, s₁, hp, hl, hc, rfl⟩ := step_call h
      exact call_arrives hp hl hc hp' hl'
    · have hne : ∀ q ret, e ≠ .call q ret := fun q ret h => he ⟨q, ret, h⟩
      rcases step_end h hne with ⟨P, img, st, -, -, -, rfl⟩ | ⟨time, rfl, -, rfl⟩
      · rw [hpe, procs_tick, lookup_live_self] at hp'
        cases hp'
        cases hl'
      · exact .same (hne p) hp' rfl
  · have hu := step_unreaped_of_ne h hpe
    have hne : ∀ ret, e ≠ .call p ret := by
      rintro ret rfl
      exact hpe rfl
    rcases step_running_of_ne h hpe hp' (by rw [hl']; rfl) with hp | hp
    · exact .same hne hp hu
    · obtain ⟨q, Q, l, k, rfl, hq, hl, hf, h0, rfl⟩ := step_born h hp hp'
      cases hl'
      exact .born rfl hq hl hf rfl h0 hp rfl

/-- A process leaves its program by a call of its own, or by a signal that was sent to it. -/
theorem step_departs (h : s.step code e = some s') (hl : s.point? p = some l)
    (hn : s'.point? p = none) :
    (∃ ret x, ∃ P : Proc L Img, e = .call p ret ∧ Leaves s.clock ret (code l) x ∧
      s'.procs.lookup p = some { P with life := x } ∧ s'.unreaped p = s.unreaped p) ∨
      ∃ P, s.procs.lookup p = some P ∧ s.Pending p P := by
  obtain ⟨P, hp, hcode⟩ := point?_eq_some.1 hl
  obtain rfl : e.pid = p := by
    by_contra hne
    rw [step_point?_of_ne h hne hp, hl] at hn
    cases hn
  cases e with
  | call p ret =>
    obtain ⟨P', l', s₁, hp', hl', hc, rfl⟩ := step_call h
    cases hp.symm.trans hp'
    cases hcode.symm.trans hl'
    -- after the other calls it is at a control point
    have point_eq : ∀ {x : Life L Img}, s₁.procs.lookup p = some { P with life := x } →
        x.point? = none := fun hx => by
      have hn : (s₁.procs.lookup p).bind (fun P => P.life.point?) = none := hn
      rwa [hx, Option.bind_some] at hn
    cases call_result hc with
    | leaves hx hs =>
      refine .inl ⟨ret, _, P, rfl, hx, by rw [procs_tick, hs]; exact lookup_live_self, ?_⟩
      exact unreaped_live hp (by rw [hcode]; rfl) hx.next.isReaped hs
    | goes _ hs | forkFailed _ _ hs | noChild _ _ _ hs | reaped _ _ _ hs =>
      cases point_eq (by rw [hs]; exact lookup_live_self)
    | @forked k _ _ hfresh hs =>
      have hne : p ≠ ret := by rintro rfl; cases hfresh.symm.trans hp
      have hx : s₁.procs.lookup p = some { P with life := .code (k ret) } := by
        rw [hs, lookup_put_ne hne]
        exact lookup_live_self
      cases point_eq hx
  | exit p st =>
    simp only [step] at h
    split at h
    · next hp' => cases hp.symm.trans hp'; cases hcode
    · cases h
  | term p =>
    simp only [step] at h
    split at h
    · next hp' =>
      split at h
      · next hpend => exact .inr ⟨_, hp', hpend.2⟩
      · cases h
    · cases h
  | pass time =>
    simp only [step] at h
    split at h
    · cases h
      cases hl.symm.trans hn
    · cases h

/-- A process that runs an image ran it before the event, or its `execl` succeeded. -/
theorem step_image {P' : Proc L Img} {img : Img} (h : s.step code e = some s')
    (hp' : s'.procs.lookup p = some P') (hl' : P'.life = .image img) :
    s.procs.lookup p = some P' ∨
    ∃ P l k, s.procs.lookup p = some P ∧ P.life = .code l ∧ code l = .execl img k := by
  by_cases hpe : e.pid = p
  · by_cases he : ∃ q ret, e = .call q ret
    · obtain ⟨q, ret, rfl⟩ := he
      obtain rfl : q = p := hpe
      obtain ⟨P, l, s₁, hp, hl, hc, rfl⟩ := step_call h
      refine .inr ⟨P, l, ?_⟩
      have image_eq : ∀ {x : Life L Img}, s₁.procs.lookup q = some { P with life := x } →
          x = .image img := fun hx => by cases hp'.symm.trans hx; exact hl'
      cases call_result hc with
      | goes _ hs₁ | forkFailed _ _ hs₁ | noChild _ _ _ hs₁ | reaped _ _ _ hs₁ =>
        cases image_eq (by rw [hs₁]; exact lookup_live_self)
      | forked _ _ hn hs₁ =>
        have hne : q ≠ ret := by rintro rfl; rw [hn] at hp; cases hp
        cases image_eq (by rw [hs₁, lookup_put_ne hne]; exact lookup_live_self)
      | leaves hx hs₁ =>
        generalize code l = d at hx
        have hxi := image_eq (by rw [hs₁]; exact lookup_live_self)
        cases hx with
        | execl img' k _ => cases hxi; exact ⟨k, hp, hl, rfl⟩
        | exit | throws => cases hxi
    · rcases step_end h fun q ret h => he ⟨q, ret, h⟩ with
        ⟨P, img', st, -, -, -, rfl⟩ | ⟨time, rfl, -, rfl⟩
      · rw [hpe, procs_tick, lookup_live_self] at hp'
        cases hp'
        cases hl'
      · exact .inl hp'
  · cases step_change h with
    | pass hs => exact .inl (hs ▸ hp')
    | own _ _ _ _ ho => exact .inl ((ho p (Ne.symm hpe)).symm.trans hp')
    | @fork _ C _ c _ _ _ _ _ hC _ hc' ho =>
      by_cases hpc : p = c
      · subst hpc
        obtain ⟨l, hl⟩ := hC.2.2
        cases hc'.symm.trans hp'
        cases hl.symm.trans hl'
      · exact .inl ((ho p (Ne.symm hpe) hpc).symm.trans hp')
    | @wait _ _ c _ _ _ _ _ _ _ _ _ _ hc' ho =>
      by_cases hpc : p = c
      · subst hpc; cases hc'.symm.trans hp'; cases hl'
      · exact .inl ((ho p (Ne.symm hpe) hpc).symm.trans hp')

/-- What is printed was printed before, or is printed by this event. -/
theorem step_printed (h : s.step code e = some s') :
    s'.printed = s.printed ∨ ∃ p ret P l out k, e = .call p ret ∧ s.procs.lookup p = some P ∧
      P.life = .code l ∧ code l = .print out k ∧ s'.printed = s.printed ++ [⟨p, l, out⟩] ∧
      s'.procs.lookup p = some { P with life := .code k } := by
  by_cases he : ∃ p ret, e = .call p ret
  · obtain ⟨p, ret, rfl⟩ := he
    obtain ⟨P, l, s₁, hp, hl, hc, rfl⟩ := step_call h
    generalize hd : code l = d at hc
    cases d with
    | print out k =>
      cases hc
      exact .inr ⟨p, ret, P, l, out, k, rfl, hp, hl, hd, rfl, lookup_live_self⟩
    | fork k => rcases call_fork hc with ⟨-, rfl⟩ | ⟨-, -, rfl⟩ <;> exact .inl rfl
    | execl img k => rcases call_execl hc with ⟨-, rfl⟩ | ⟨-, rfl⟩ <;> exact .inl rfl
    | wait k => rcases call_wait hc with ⟨-, -, rfl⟩ | ⟨-, _, _, _, _, _, -, rfl⟩ <;> exact .inl rfl
    | throws k => rcases call_throws hc with ⟨-, rfl⟩ | ⟨-, rfl⟩ <;> exact .inl rfl
    | undefined => cases hc
    | _ => cases hc; exact .inl rfl
  · rcases step_end h fun p ret h => he ⟨p, ret, h⟩ with
      ⟨P, img, st, -, -, -, rfl⟩ | ⟨time, rfl, -, rfl⟩ <;> exact .inl rfl

/-- A signal was sent before, or is sent by this event. -/
theorem step_kills (h : s.step code e = some s') :
    s'.kills = s.kills ∨ ∃ p ret P l target k, e = .call p ret ∧ s.procs.lookup p = some P ∧
      P.life = .code l ∧ code l = .kill target k ∧
      s'.kills = s.kills ++ [⟨p, target, s.clock⟩] := by
  by_cases he : ∃ p ret, e = .call p ret
  · obtain ⟨p, ret, rfl⟩ := he
    obtain ⟨P, l, s₁, hp, hl, hc, rfl⟩ := step_call h
    generalize hd : code l = d at hc
    cases d with
    | kill target k => cases hc; exact .inr ⟨p, ret, P, l, target, k, rfl, hp, hl, hd, rfl⟩
    | fork k => rcases call_fork hc with ⟨-, rfl⟩ | ⟨-, -, rfl⟩ <;> exact .inl rfl
    | execl img k => rcases call_execl hc with ⟨-, rfl⟩ | ⟨-, rfl⟩ <;> exact .inl rfl
    | wait k => rcases call_wait hc with ⟨-, -, rfl⟩ | ⟨-, _, _, _, _, _, -, rfl⟩ <;> exact .inl rfl
    | throws k => rcases call_throws hc with ⟨-, rfl⟩ | ⟨-, rfl⟩ <;> exact .inl rfl
    | undefined => cases hc
    | _ => cases hc; exact .inl rfl
  · rcases step_end h fun p ret h => he ⟨p, ret, h⟩ with
      ⟨P, img, st, -, -, -, rfl⟩ | ⟨time, rfl, -, rfl⟩ <;> exact .inl rfl

/-! ## Times -/

/-- A process was forked before it exited, and both are past. -/
structure Past (now : Nat) (P : Proc L Img) : Prop where
  forkedAt : P.forkedAt < now
  exitedAt : ∀ t ∈ P.life.exitedAt?, P.forkedAt < t ∧ t < now

/-- The times of the table are past. -/
def Timed (s : Sys L Img Out) : Prop := ∀ q Q, s.procs.lookup q = some Q → Past s.clock Q

theorem timed_init {root : Int} : Timed (init root l : Sys L Img Out) := by
  intro q Q hq
  rw [(lookup_init hq).2]
  exact ⟨Nat.one_pos, nofun⟩

theorem Past.mono {m n : Nat} (h : Past m P) (hmn : m ≤ n) : Past n P :=
  ⟨h.forkedAt.trans_le hmn, fun t ht => ⟨(h.exitedAt t ht).1, (h.exitedAt t ht).2.trans_le hmn⟩⟩

/-- A process that exits does so at the time of the event. -/
theorem Past.next {m n : Nat} {x : Life L Img} (h : Past m P) (hx : Next m x) (hmn : m < n) :
    Past n { P with life := x } :=
  ⟨h.forkedAt.trans hmn, fun t ht => by rw [hx.exitedAt t ht]; exact ⟨h.forkedAt, hmn⟩⟩

/-- Times stay past. -/
theorem step_timed (hs : s.step code e = some s') (h : Timed s) : Timed s' := by
  intro q Q hq
  have hclock := step_clock hs
  have old : s.procs.lookup q = some Q → Past s'.clock Q := fun hq => (h q Q hq).mono hclock.le
  by_cases hqp : q = e.pid
  · subst hqp
    cases step_change hs with
    | own hp _ hx hp' | fork hp _ hx _ _ _ hp' | wait hp _ hx _ hp' =>
      cases hq.symm.trans hp'
      exact (h _ _ hp).next hx hclock
    | pass hsame => exact old (hsame ▸ hq)
  · cases step_change hs with
    | pass hsame => exact old (hsame ▸ hq)
    | own _ _ _ _ ho => exact old ((ho q hqp).symm.trans hq)
    | @fork _ C _ c _ _ _ _ _ hC _ hc' ho =>
      by_cases hqc : q = c
      · subst hqc
        cases hq.symm.trans hc'
        refine ⟨by rw [hC.2.1]; exact hclock, fun t ht => ?_⟩
        obtain ⟨l, hl⟩ := hC.2.2
        rw [hl] at ht
        cases ht
      · exact old ((ho q hqp hqc).symm.trans hq)
    | @wait _ _ c _ _ _ _ _ _ _ _ hc _ hc' ho =>
      by_cases hqc : q = c
      · subst hqc
        cases hq.symm.trans hc'
        have hz := (h _ _ hc).mono hclock.le
        exact ⟨hz.forkedAt, hz.exitedAt⟩
      · exact old ((ho q hqp hqc).symm.trans hq)

/-- An event of another process does not end a process. -/
theorem step_exitedAt_of_ne {Q' : Proc L Img} {t : Nat} (hs : s.step code e = some s')
    (hne : e.pid ≠ q) (hq : s.procs.lookup q = some Q) (hq' : s'.procs.lookup q = some Q')
    (ht : Q'.life.exitedAt? = some t) : Q.life.exitedAt? = some t := by
  have same : s'.procs.lookup q = s.procs.lookup q → Q.life.exitedAt? = some t := fun ho => by
    cases hq'.symm.trans (ho.trans hq)
    exact ht
  cases step_change hs with
  | pass hsame => exact same (by rw [hsame])
  | own _ _ _ _ ho => exact same (ho q hne.symm)
  | @fork _ C _ c _ _ _ hc _ hC _ hc' ho =>
    have hqc : q ≠ c := by rintro rfl; rw [hc] at hq; cases hq
    exact same (ho q hne.symm hqc)
  | @wait _ _ c _ _ _ _ _ _ _ _ hc _ hc' ho =>
    by_cases hqc : q = c
    · subst hqc
      cases hq.symm.trans hc
      cases hq'.symm.trans hc'
      exact ht
    · exact same (ho q hne.symm hqc)

/-- A process that has exited after an event had exited before it, or exits now. -/
theorem step_exitedAt {Q' : Proc L Img} {t : Nat} (hs : s.step code e = some s')
    (hq : s.procs.lookup q = some Q) (hq' : s'.procs.lookup q = some Q')
    (ht : Q'.life.exitedAt? = some t) :
    Q.life.exitedAt? = some t ∨ (Q.life.exitedAt? = none ∧ t = s.clock) := by
  by_cases hqp : e.pid = q
  · subst hqp
    cases step_change hs with
    | own hp hr hx hp' | fork hp hr hx _ _ _ hp' | wait hp hr hx _ hp' =>
      cases hq.symm.trans hp
      cases hq'.symm.trans hp'
      exact .inr ⟨exitedAt?_of_running hr, hx.exitedAt t ht⟩
    | pass hsame =>
      cases hq'.symm.trans (hsame ▸ hq)
      exact .inl ht
  · exact .inl (step_exitedAt_of_ne hs hqp hq hq' ht)

/-- Process `q` had been forked and had not exited at time `t`. -/
def AliveAt (s : Sys L Img Out) (q : Int) (t : Nat) : Prop :=
  ∃ Q ∈ s.procs.lookup q, Q.forkedAt ≤ t ∧ ∀ t' ∈ Q.life.exitedAt?, t < t'

instance (s : Sys L Img Out) (q : Int) (t : Nat) : Decidable (s.AliveAt q t) :=
  inferInstanceAs (Decidable (∃ Q ∈ _, _ ∧ ∀ t' ∈ _, _))

/-- An event does not change who was alive at a time that is past. -/
theorem AliveAt.step {t : Nat} (hs : s.step code e = some s') (ht : t < s.clock)
    (h : s.AliveAt q t) : s'.AliveAt q t := by
  obtain ⟨Q, hq, hf, hx⟩ := h
  obtain ⟨Q', hq', hb⟩ := step_before hs hq
  refine ⟨Q', hq', hb.forkedAt ▸ hf, fun t' ht' => ?_⟩
  rcases step_exitedAt hs hq hq' ht' with h | ⟨-, rfl⟩
  · exact hx t' h
  · exact ht

/-- A run does not change who was alive at a time, as far as they had been forked. -/
theorem AliveAt.of_reach {C : Sys L Img Out → Event → Prop} {t : Nat}
    (h : Reach (Sys.step code) C s s') (hq : s.procs.lookup q = some Q) (ha : s'.AliveAt q t) :
    s.AliveAt q t := by
  obtain ⟨Q', hq', hf, hx⟩ := ha
  obtain ⟨Q'', hq'', hb⟩ := reach_before h hq
  cases (Option.mem_def.1 hq').symm.trans hq''
  exact ⟨Q, hq, hb.forkedAt ▸ hf, fun t' ht' => hx t' (hb.exitedAt t' ht')⟩

end Sys

end

end Posix
