import SchedulerComparison.Hackbench.Main

/-!
# Stopping hackbench

A signal makes `main` jump out of whatever it is doing, and it then sends SIGTERM to the
first `total_children` workers of `child_tab`. `total_children` is updated after a whole group has
been created (`hackbench.c:457`), so the workers of a group that is being created are left out. And
the handlers are still installed when `main` has freed `child_tab` (`:513`), so that a signal before
the `exit` makes it read the freed table. `stop_exactly` shows that this is all that can go wrong:
when a signal is delivered while every worker that was forked is counted, and none is caught behind
the `free`, all of them have been sent SIGTERM before `main` exits; a delivery while some worker is
not counted leaves a worker that never is; and a signal that is caught behind the `free` leads to a
step without a meaning.

The invariant is about what stopping depends on (`Core`): where `main` is creating a group, the
table holds the pids of the workers in order (`Building`); after that nothing is forked or
counted any more (`frozen_step`), and what is left is to signal a part of the table
(`Reaping`).
-/

open Transition

namespace Hackbench

/-! ## What stopping depends on -/

/-- The part of the state that stopping depends on. -/
structure Core where
  totalChildren : UInt32
  childTab : Nat → Int
  signalCaught : Bool
  catches : Sig → Bool
  forked : Nat
  pids : Nat → Int
  signalled : Nat → Bool
  delivered : Bool

/-- The part of a state that stopping depends on. -/
def State.core (s : State) : Core where
  totalChildren := s.totalChildren
  childTab := s.childTab
  signalCaught := s.signalCaught
  catches := s.catches
  forked := s.forked
  pids k := (s.workers k).pid
  signalled k := (s.workers k).signalled
  delivered := s.delivered

/-- The number of workers that are counted. -/
def Core.counted (c : Core) : Nat := c.totalChildren.toNat

/-- The first `n` entries of the table are the pids of the first `n` workers. -/
def Core.Tab (c : Core) (n : Nat) : Prop := ∀ i < n, c.childTab i = c.pids i

/-- The first `n` entries of the table are pids of workers. -/
def Core.Entries (c : Core) (n : Nat) : Prop := ∀ i < n, ∃ k < c.forked, c.childTab i = c.pids k

/-- When not all workers are counted, those that have been sent SIGTERM are in a part of the table
that has too few entries for all of them. -/
def Core.Spared (c : Core) : Prop :=
  c.forked ≠ c.counted → ∃ m < c.forked, ∀ i < c.forked, c.signalled i = true →
    ∃ j < m, c.childTab j = c.pids i

/-- The pids of the workers are positive and differ. -/
structure Core.Distinct (c : Core) : Prop where
  pos : ∀ i < c.forked, 0 < c.pids i
  inj : ∀ i < c.forked, ∀ j < c.forked, c.pids i = c.pids j → i = j

/-- No signal has been delivered, and both would be caught. -/
structure Core.Calm (c : Core) : Prop where
  catches : ∀ sig, c.catches sig = true
  signalCaught : c.signalCaught = false
  delivered : c.delivered = false

theorem Core.Calm.not_delivered {c : Core} (h : c.Calm) : ¬ c.delivered = true := by
  rw [h.delivered]
  exact Bool.false_ne_true

/-- `main` is creating a group: `forked` of its workers are running, and `stored` of them are in
the table. When `num_fds*2` wraps, a group that failed can pass for a whole one, and then more
workers have been forked than those of this group and the counted ones. -/
structure Core.Building (o : Options) (c : Core) (stored forked : Nat) : Prop where
  calm : c.Calm
  le : c.counted + forked ≤ c.forked
  exact : 2 * o.numFds.toNat < 2 ^ 32 → c.forked = c.counted + forked
  tab : c.forked = c.counted + forked → c.Tab (c.counted + stored)
  entries : c.Entries (c.counted + stored)
  size : c.counted + stored ≤ o.tabSize.toNat
  unsent : ∀ i < c.forked, c.signalled i = false

/-- `main` is about to store what `fork` returned. -/
def Core.Storing (o : Options) (c : Core) (n : Nat) (pid : Int) : Prop :=
  pid = -1 ∧ c.Building o n n ∨
    pid ≠ -1 ∧ c.Building o n (n + 1) ∧ c.pids (c.forked - 1) = pid

/-- `main` signals and reaps the workers in the first `n` entries: all of them, if all are counted,
and fewer otherwise. -/
structure Core.Reaping (c : Core) (n : UInt32) : Prop where
  tab : c.forked = c.counted → c.Tab n.toNat
  entries : c.Entries n.toNat
  all : c.forked = c.counted → n.toNat = c.forked
  some : c.forked ≠ c.counted → n.toNat < c.forked

/-- The first `n` workers have been sent SIGTERM. -/
def Core.Sent (c : Core) (n : Nat) : Prop := ∀ i < n, c.signalled i = true

/-- What holds at a control point of `main`. -/
def Core.At (o : Options) (c : Core) : MainPoint → Prop
  | .groupHead _ | .sndMalloc _ | .setScheduler | .readyHead _ | .readReady _ | .startTime
  | .wake => c.Building o 0 0
  | .receiverHead _ j => j.toNat ≤ o.numFds.toNat ∧ c.Building o j.toNat j.toNat
  | .receiverMalloc _ j | .receiverPipe _ j | .receiverFork _ j =>
    j.toNat < o.numFds.toNat ∧ c.Building o j.toNat j.toNat
  | .receiverStore _ j pid => j.toNat < o.numFds.toNat ∧ c.Storing o j.toNat pid
  | .senderHead _ j => j.toNat ≤ o.numFds.toNat ∧
      c.Building o (o.numFds.toNat + j.toNat) (o.numFds.toNat + j.toNat)
  | .senderFork _ j => j.toNat < o.numFds.toNat ∧
      c.Building o (o.numFds.toNat + j.toNat) (o.numFds.toNat + j.toNat)
  | .senderStore _ j pid =>
    j.toNat < o.numFds.toNat ∧ c.Storing o (o.numFds.toNat + j.toNat) pid
  | .groupReturned _ n => ∃ f, c.Building o f f ∧
      (n.toNat = f ∧ n = o.numFds * 2 ∨ n.toNat = f - 1 ∧ f < 2 * o.numFds.toNat)
  | .count _ n => ∃ f, c.Building o f f ∧ n.toNat ≤ f ∧
      (2 * o.numFds.toNat < 2 ^ 32 → n.toNat = f)
  | .sigcatcher _ | .longjmped | .ignoreTerm => c.signalCaught = true
  | .reapAll => c.signalCaught = true ∨ c.Building o 0 0
  | .reap n dokill _ => c.Reaping n ∧ (dokill = true ∨ c.Calm)
  | .kill k n _ => c.Reaping n ∧ k ≤ n.toNat ∧ (c.forked = c.counted → c.Sent k)
  | .waitHead _ n _ | .wait _ n _ =>
    c.Reaping n ∧ ((c.forked = c.counted → c.Sent n.toNat) ∨ c.Calm)
  | .report | .freeTab | .exit => (c.forked = c.counted → c.Sent c.forked) ∨ c.Calm
  | .exited _ => c.delivered = true → c.forked = c.counted → c.Sent c.forked

/-- The invariant. -/
structure Inv (o : Options) (c : Core) (l : MainPoint) : Prop where
  distinct : c.Distinct
  tab : c.forked = c.counted → c.Tab c.counted
  entries : c.Entries c.counted
  le : c.counted ≤ c.forked
  spared : c.Spared
  at_point : c.At o l

section
variable {o : Options} {s s' : State} {c : Core} {e : Event} {n stored forked : Nat}

/-! ## Arithmetic -/

theorem numFds_pos (o : Options) : 0 < o.numFds.toNat := UInt32.le_iff_toNat_le.1 o.one_le_numFds

/-- `num_fds*2`, when it does not wrap. -/
theorem toNat_numFds_two (h : 2 * o.numFds.toNat < 2 ^ 32) :
    (o.numFds * 2).toNat = 2 * o.numFds.toNat := by
  have h2 : (2 : UInt32).toNat = 2 := rfl
  rw [UInt32.toNat_mul, h2]
  omega

/-- A sum that stays below a 32-bit bound does not wrap. -/
theorem toNat_add_of_lt {a b : UInt32} (h : a.toNat + b.toNat < 2 ^ 32) :
    (a + b).toNat = a.toNat + b.toNat := by
  rw [UInt32.toNat_add]
  exact Nat.mod_eq_of_lt h

/-- What `group` returns when receiver `j` could not be created. -/
theorem toNat_receiverFailed (j : UInt32) : (receiverFailed j).toNat = j.toNat - 1 := by
  unfold receiverFailed
  split
  · next hj =>
    have hj := UInt32.lt_iff_toNat_lt.1 hj
    have h0 : (0 : UInt32).toNat = 0 := rfl
    have h1 : (1 : UInt32).toNat = 1 := rfl
    rw [UInt32.toNat_sub_of_le _ _ (UInt32.le_iff_toNat_le.2 (by omega)), h1]
  · next hj =>
    have hj : ¬ (0 : UInt32).toNat < j.toNat := fun h => hj (UInt32.lt_iff_toNat_lt.2 h)
    have h0 : (0 : UInt32).toNat = 0 := rfl
    omega

/-- A number of workers that fits into the table does not wrap. -/
theorem toNat_totalChildren_add (hsize : c.counted + n ≤ o.tabSize.toNat) {j : UInt32}
    (hj : j.toNat = n) : (c.totalChildren + j).toNat = c.counted + n := by
  have := o.tabSize.toNat_lt
  rw [toNat_add_of_lt (by rw [hj]; exact Nat.lt_of_le_of_lt hsize this), hj]
  rfl

/-! ## What the statements do to the invariant -/

/-- `main` goes on to another control point. -/
theorem Inv.goto {l l' : MainPoint} (h : Inv o s.core l) (hl : s.core.At o l') :
    Inv o (s.goto l').core (s.goto l').point :=
  ⟨h.distinct, h.tab, h.entries, h.le, h.spared, hl⟩

/-- When not all workers are counted, not all of them have been sent SIGTERM. -/
theorem Core.Spared.not_all (h : c.Spared) (hd : c.Distinct) (hne : c.forked ≠ c.counted) :
    ¬ ∀ i < c.forked, c.signalled i = true := by
  intro hall
  obtain ⟨m, hm, hspared⟩ := h hne
  -- the workers would be at different entries of the part
  choose! entry hentry using fun i hi => hspared i hi (hall i hi)
  have hcard := Finset.card_le_card_of_injOn (s := Finset.range c.forked) (t := Finset.range m)
    entry (fun i hi => ?_) fun i hi j hj hij => ?_
  · rw [Finset.card_range, Finset.card_range] at hcard
    omega
  · exact Finset.mem_coe.2 (Finset.mem_range.2 (hentry i (Finset.mem_range.1 hi)).1)
  · have hi := Finset.mem_range.1 hi
    have hj := Finset.mem_range.1 hj
    exact hd.inj i hi j hj ((hentry i hi).2.symm.trans (hij ▸ (hentry j hj).2))

/-- A step that changes how signals are handled, or delivers one. -/
theorem Inv.signals {l l' : MainPoint} {caught delivered : Bool} {catches : Sig → Bool}
    (h : Inv o c l)
    (hl : Core.At o { c with signalCaught := caught, catches, delivered } l') :
    Inv o { c with signalCaught := caught, catches, delivered } l' :=
  ⟨⟨h.distinct.pos, h.distinct.inj⟩, h.tab, h.entries, h.le, h.spared, hl⟩

/-- A step that changes nothing that stopping depends on. -/
theorem Inv.of_core_eq {l : MainPoint} (h : Inv o s.core l) (hc : s'.core = s.core)
    (hl : s'.point = l) : Inv o s'.core s'.point := by
  rw [hc, hl]
  exact h

/-- The pid of a new worker differs from the others. -/
theorem Core.Distinct.fork {func : Func} {ret : Int} {l : MainPoint} (h : s.core.Distinct)
    (hpos : 0 < ret) (hfresh : ∀ i < s.forked, (s.workers i).pid ≠ ret) :
    (State.core { s with
      point := l
      forked := s.forked + 1
      workers := Function.update s.workers s.forked { pid := ret, func := func } }).Distinct := by
  refine ⟨forall_update_succ (P := fun _ (w : Worker) => 0 < w.pid) h.pos hpos,
    fun i hi j hj hij => ?_⟩
  change (Function.update s.workers s.forked _ i).pid =
    (Function.update s.workers s.forked _ j).pid at hij
  rcases Nat.lt_succ_iff_lt_or_eq.1 hi with hi | rfl <;>
    rcases Nat.lt_succ_iff_lt_or_eq.1 hj with hj | rfl
  · rw [Function.update_of_ne (Nat.ne_of_lt hi), Function.update_of_ne (Nat.ne_of_lt hj)] at hij
    exact h.inj i hi j hj hij
  · rw [Function.update_of_ne (Nat.ne_of_lt hi), Function.update_self] at hij
    exact absurd hij (hfresh i hi)
  · rw [Function.update_of_ne (Nat.ne_of_lt hj), Function.update_self] at hij
    exact absurd hij.symm (hfresh j hj)
  · rfl

/-- `fork()`, followed by storing what it returned. -/
theorem Inv.fork {l : MainPoint} {func : Func} {ret : Int} {k : Int → MainPoint}
    (h : Inv o s.core l) (hb : s.core.Building o n n)
    (hk : ∀ (c : Core) pid, c.Storing o n pid → c.At o (k pid))
    (hs : s.fork func ret k = some s') : Inv o s'.core s'.point := by
  obtain ⟨rfl, rfl⟩ | ⟨hret, hpos, hfresh, rfl⟩ := State.fork_cases hs
  · exact h.goto (hk _ _ (.inl ⟨rfl, hb⟩))
  · have hnew : Function.update s.workers s.forked ({ pid := ret, func := func } : Worker)
        s.forked = { pid := ret, func := func } := Function.update_self _ _ _
    -- the workers forked before are the same
    have hold : ∀ i < s.forked, (Function.update s.workers s.forked
        ({ pid := ret, func := func } : Worker) i).pid = (s.workers i).pid := by
      intro i hi
      rw [Function.update_of_ne (Nat.ne_of_lt hi)]
    have hentries : ∀ m, s.core.Entries m → ∀ i < m, ∃ k < s.forked + 1, s.childTab i =
        (Function.update s.workers s.forked ({ pid := ret, func := func } : Worker) k).pid := by
      intro m hm i hi
      obtain ⟨k, hk, heq⟩ := hm i hi
      exact ⟨k, Nat.lt_succ_of_lt hk, heq.trans (hold k hk).symm⟩
    have hunsent := forall_update_succ (P := fun _ (w : Worker) => w.signalled = false)
      (x := { pid := ret, func := func }) hb.unsent rfl
    have hlt : s.core.counted + n ≤ s.forked := hb.le
    refine ⟨h.distinct.fork hpos hfresh, fun heq => ?_, hentries _ h.entries,
      Nat.le_succ_of_le h.le, fun _ => ⟨0, Nat.succ_pos _, fun i hi hsig => ?_⟩,
      hk _ _ (.inr ⟨hret, ⟨⟨hb.calm.1, hb.calm.2, hb.calm.3⟩, Nat.succ_le_succ hlt,
        fun hw => ?_, fun heq i hi => ?_, hentries _ hb.entries, hb.size, hunsent⟩, ?_⟩)⟩
    · -- the new worker is not counted
      have heq : s.forked + 1 = s.core.counted := heq
      omega
    · exact absurd ((hunsent i hi).symm.trans hsig) Bool.false_ne_true
    · exact congrArg (· + 1) (hb.exact hw)
    · have heq : s.forked + 1 = s.core.counted + (n + 1) := heq
      have hforked : s.forked = s.core.counted + n := by omega
      have hi : i < s.core.counted + n := hi
      exact (hb.tab hforked i hi).trans (hold i (hforked ▸ hi)).symm
    · show (Function.update s.workers s.forked _ (s.forked + 1 - 1)).pid = ret
      rw [Nat.add_sub_cancel, hnew]

/-- Storing what `fork` returned. -/
theorem Inv.store {l : MainPoint} {k : UInt32} {pid : Int} {l' : MainPoint}
    (h : Inv o s.core l) (hn : s.core.Storing o n pid)
    (hk : s.core.counted + n ≤ o.tabSize.toNat → k.toNat = s.core.counted + n)
    (hok : ∀ c : Core, pid ≠ -1 → c.Building o (n + 1) (n + 1) → c.At o l')
    (hfail : ∀ c : Core, pid = -1 → c.Building o n n → c.At o l')
    (hs : s.store o k pid l' = some s') : Inv o s'.core s'.point := by
  obtain ⟨hlt, rfl⟩ := State.store_cases hs
  have hbuild : s.core.counted + n ≤ o.tabSize.toNat ∧ s.core.Entries (s.core.counted + n) ∧
      ∀ i < s.core.forked, s.core.signalled i = false := by
    rcases hn with ⟨-, hb⟩ | ⟨-, hb, -⟩
    · exact ⟨hb.size, hb.entries, hb.unsent⟩
    · exact ⟨hb.size, hb.entries, hb.unsent⟩
  obtain ⟨hsize, hentries, hunsent⟩ := hbuild
  have hk := hk hsize
  have hlt := UInt32.lt_iff_toNat_lt.1 hlt
  have hle : s.core.counted ≤ s.core.counted + n := Nat.le_add_right _ _
  have hself : Function.update s.childTab k.toNat pid (s.core.counted + n) = pid := by
    rw [← hk, Function.update_self]
  -- the entries stored before are the same
  have hold : ∀ i < s.core.counted + n,
      Function.update s.childTab k.toNat pid i = s.childTab i := by
    intro i hi
    rw [Function.update_of_ne (by omega)]
  have hkeep : ∀ m ≤ s.core.counted + n, s.core.Entries m →
      ∀ i < m, ∃ w < s.forked, Function.update s.childTab k.toNat pid i = (s.workers w).pid := by
    intro m hm he i hi
    obtain ⟨w, hw, heq⟩ := he i hi
    exact ⟨w, hw, (hold i (Nat.lt_of_lt_of_le hi hm)).trans heq⟩
  refine ⟨⟨h.distinct.pos, h.distinct.inj⟩, fun heq i hi => ?_, hkeep _ hle h.entries, h.le,
    fun hne => ⟨0, ?_, fun i hi hsig => ?_⟩, ?_⟩
  · exact (hold i (Nat.lt_of_lt_of_le hi hle)).trans (h.tab heq i hi)
  · exact Nat.pos_of_ne_zero fun h0 => hne (h0.trans (Nat.le_zero.1 (h0 ▸ h.le)).symm)
  · exact absurd ((hunsent i hi).symm.trans hsig) Bool.false_ne_true
  · rcases hn with ⟨hpid, hb⟩ | ⟨hpid, hb, hlast⟩
    · refine hfail _ hpid ⟨⟨hb.calm.1, hb.calm.2, hb.calm.3⟩, hb.le, hb.exact,
        fun heq i hi => ?_, hkeep _ (Nat.le_refl _) hb.entries, hb.size, hb.unsent⟩
      exact (hold i hi).trans (hb.tab heq i hi)
    · have hpos : s.core.counted + (n + 1) ≤ s.core.forked := hb.le
      refine hok _ hpid ⟨⟨hb.calm.1, hb.calm.2, hb.calm.3⟩, hb.le, hb.exact,
        fun heq i hi => ?_, fun i hi => ?_, ?_, hb.unsent⟩
      · rcases Nat.lt_succ_iff_lt_or_eq.1 hi with hi | rfl
        · exact (hold i hi).trans (hb.tab heq i hi)
        · have heq : s.core.forked = s.core.counted + (n + 1) := heq
          rw [show s.core.forked - 1 = s.core.counted + n by omega] at hlast
          exact hself.trans hlast.symm
      · rcases Nat.lt_succ_iff_lt_or_eq.1 hi with hi | rfl
        · exact hkeep _ (Nat.le_refl _) hb.entries i hi
        · exact ⟨s.core.forked - 1, show s.core.forked - 1 < s.core.forked by omega,
            hself.trans hlast.symm⟩
      · show s.core.counted + (n + 1) ≤ _
        omega

/-- When a group has failed, the last of its workers is left out. -/
theorem Core.Building.reaping {k : UInt32} (hb : c.Building o n n) (hk : k.toNat = n - 1) :
    c.Reaping (c.totalChildren + k) := by
  have hle : c.counted + n ≤ c.forked := hb.le
  have hadd : (c.totalChildren + k).toNat = c.counted + (n - 1) :=
    toNat_totalChildren_add (Nat.le_trans (Nat.add_le_add_left (Nat.sub_le n 1) _) hb.size) hk
  refine ⟨fun heq i hi => hb.tab ?_ i ?_, fun i hi => hb.entries i ?_, fun _ => ?_, fun _ => ?_⟩
  · omega
  · omega
  · omega
  · omega
  · omega

/-- When all of the table has been signalled that is to be, and every worker is counted, all of
them have been signalled. -/
theorem Core.Reaping.sent_all {m : UInt32} (h : c.Reaping m)
    (hsent : (c.forked = c.counted → c.Sent m.toNat) ∨ c.Calm) :
    (c.forked = c.counted → c.Sent c.forked) ∨ c.Calm :=
  hsent.imp_left fun hsent hc => h.all hc ▸ hsent hc

/-- A group is counted. -/
theorem Inv.count {l l' : MainPoint} {k : UInt32} (h : Inv o s.core l)
    (hb : s.core.Building o n n) (hk : k.toNat ≤ n)
    (hw : 2 * o.numFds.toNat < 2 ^ 32 → k.toNat = n)
    (hl : ∀ c : Core, c.Building o 0 0 → c.At o l') :
    Inv o { s.core with totalChildren := s.totalChildren + k } l' := by
  have hsize : s.core.counted + k.toNat ≤ o.tabSize.toNat :=
    Nat.le_trans (Nat.add_le_add_left hk _) hb.size
  have hadd : (s.totalChildren + k).toNat = s.core.counted + k.toNat :=
    toNat_totalChildren_add hsize rfl
  have hle : s.core.counted + n ≤ s.core.forked := hb.le
  have htab : s.core.forked = (s.totalChildren + k).toNat →
      s.core.Tab (s.totalChildren + k).toNat := by
    intro heq i hi
    exact hb.tab (by omega) i (by omega)
  have hentries : s.core.Entries (s.totalChildren + k).toNat :=
    fun i hi => hb.entries i (by omega)
  refine ⟨⟨h.distinct.pos, h.distinct.inj⟩, htab, hentries, ?_, fun hne => ⟨0, ?_, ?_⟩,
    hl _ ⟨⟨hb.calm.1, hb.calm.2, hb.calm.3⟩, ?_, fun hw' => ?_, htab, hentries, ?_, hb.unsent⟩⟩
  · show (s.totalChildren + k).toNat ≤ s.core.forked
    omega
  · have hne : s.core.forked ≠ (s.totalChildren + k).toNat := hne
    show 0 < s.core.forked
    omega
  · exact fun i hi hsig => absurd ((hb.unsent i hi).symm.trans hsig) Bool.false_ne_true
  · show (s.totalChildren + k).toNat + 0 ≤ s.core.forked
    omega
  · have hforked : s.core.forked = s.core.counted + n := hb.exact hw'
    show s.core.forked = (s.totalChildren + k).toNat + 0
    have := hw hw'
    omega
  · show (s.totalChildren + k).toNat + 0 ≤ _
    omega

/-- `kill(children[k].pid, SIGTERM)` reaches the worker whose pid is in the entry and no other. -/
theorem Inv.kill {l : MainPoint} {k : Nat} {m : UInt32} {after : After} (h : Inv o s.core l)
    (hr : s.core.Reaping m) (hk : k < m.toNat)
    (hsent : s.core.forked = s.core.counted → s.core.Sent k) :
    Inv o ((s.sendTerm (s.childTab k)).goto (.kill (k + 1) m after)).core
      (.kill (k + 1) m after) := by
  obtain ⟨w, hw, hpid⟩ : ∃ w < s.forked, s.childTab k = (s.workers w).pid := hr.entries k hk
  have hpos : 0 < (s.workers w).pid := h.distinct.pos w hw
  have hpids : ∀ i, ((s.sendTerm (s.childTab k)).workers i).pid = (s.workers i).pid :=
    s.pid_sendTerm _
  have hhit : ((s.sendTerm (s.childTab k)).workers w).signalled = true := by
    dsimp only [State.sendTerm]
    rw [if_pos (.inl hpid.symm)]
  have hkeep : ∀ i, (s.workers i).signalled = true →
      ((s.sendTerm (s.childTab k)).workers i).signalled = true := by
    intro i hi
    dsimp only [State.sendTerm]
    split
    · rfl
    · exact hi
  have hmiss : ∀ i, ((s.sendTerm (s.childTab k)).workers i).signalled = true →
      (s.workers i).signalled = true ∨ s.childTab k = (s.workers i).pid := by
    intro i hi
    dsimp only [State.sendTerm] at hi
    split at hi
    · next heq =>
      rcases heq with heq | heq | heq
      · exact .inr heq.symm
      · omega
      · omega
    · exact .inl hi
  have htab : ∀ {j : Nat}, s.core.Tab j → ∀ i < j,
      s.childTab i = ((s.sendTerm (s.childTab k)).workers i).pid :=
    fun ht i hi => (ht i hi).trans (hpids i).symm
  have hentries : ∀ {j : Nat}, s.core.Entries j → ∀ i < j,
      ∃ w < s.forked, s.childTab i = ((s.sendTerm (s.childTab k)).workers w).pid := by
    intro j he i hi
    obtain ⟨w, hw, heq⟩ := he i hi
    exact ⟨w, hw, heq.trans (hpids w).symm⟩
  refine ⟨⟨fun i hi => ?_, fun i hi j hj hij => ?_⟩, fun heq => htab (h.tab heq),
    hentries h.entries, h.le, fun hne => ?_,
    ⟨fun heq => htab (hr.tab heq), hentries hr.entries, hr.all, hr.some⟩, hk, fun heq i hi => ?_⟩
  · exact (h.distinct.pos i hi).trans_eq (hpids i).symm
  · exact h.distinct.inj i hi j hj ((hpids i).symm.trans (hij.trans (hpids j)))
  · obtain ⟨m', hm', hspared⟩ := h.spared hne
    refine ⟨max m' m.toNat, max_lt hm' (hr.some hne), fun i hi hsig => ?_⟩
    rcases hmiss i hsig with hsig | hnew
    · obtain ⟨j, hj, heq⟩ := hspared i hi hsig
      exact ⟨j, lt_max_of_lt_left hj, heq.trans (hpids i).symm⟩
    · exact ⟨k, lt_max_of_lt_right hk, hnew.trans (hpids i).symm⟩
  · rcases Nat.lt_succ_iff_lt_or_eq.1 hi with hi | rfl
    · exact hkeep i (hsent heq i hi)
    · have hiw : i = w := by
        have hi' : i < s.core.forked := by
          have := hr.all heq
          omega
        exact h.distinct.inj i hi' w hw ((hr.tab heq i hk).symm.trans hpid)
      subst hiw
      exact hhit

/-- A signal that is ignored is delivered where the workers are signalled anyway. -/
theorem Core.At.ignored {l : MainPoint} {sig : Sig} (h : c.At o l) (hc : c.catches sig = false)
    (hl : l.isExited = false) : Core.At o { c with delivered := true } l := by
  have hcalm : ¬ c.Calm := fun hcalm => Bool.false_ne_true (hc.symm.trans (hcalm.catches sig))
  have hno : ∀ {p q}, ¬ c.Building o p q := fun hb => hcalm hb.calm
  have hstore : ∀ {p pid}, ¬ c.Storing o p pid := by
    rintro p pid (⟨-, hb⟩ | ⟨-, hb, -⟩)
    · exact hno hb
    · exact hno hb
  cases l with
  | groupHead | sndMalloc | setScheduler | readyHead | readReady | startTime | wake =>
    exact absurd h hno
  | receiverHead | receiverMalloc | receiverPipe | receiverFork | senderHead | senderFork =>
    exact absurd h.2 hno
  | receiverStore | senderStore => exact absurd h.2 hstore
  | groupReturned | count =>
    obtain ⟨f, hb, -⟩ := h
    exact absurd hb hno
  | sigcatcher | longjmped | ignoreTerm => exact h
  | reapAll => exact .inl (h.resolve_right hno)
  | reap =>
    exact ⟨⟨h.1.tab, h.1.entries, h.1.all, h.1.some⟩, .inl (h.2.resolve_right hcalm)⟩
  | kill => exact ⟨⟨h.1.tab, h.1.entries, h.1.all, h.1.some⟩, h.2⟩
  | waitHead | wait =>
    exact ⟨⟨h.1.tab, h.1.entries, h.1.all, h.1.some⟩, .inl (h.2.resolve_right hcalm)⟩
  | report | freeTab | exit => exact .inl (h.resolve_right hcalm)
  | exited => cases hl

/-- Reaping every worker that is counted. -/
theorem Inv.reapCounted {l : MainPoint} {dokill : Bool} {after : After} (h : Inv o c l)
    (hk : dokill = true ∨ c.Calm) : c.At o (.reap c.totalChildren dokill after) :=
  ⟨⟨h.tab, h.entries, fun hc => hc.symm, fun hc => Nat.lt_of_le_of_ne h.le (Ne.symm hc)⟩, hk⟩

/-- The phase of a worker is nothing that stopping depends on. -/
theorem core_setPhase (s : State) (k : Nat) (x : Phase) : (s.setPhase k x).core = s.core := by
  show Core.mk _ _ _ _ _ (fun i => ((s.setPhase k x).workers i).pid)
    (fun i => ((s.setPhase k x).workers i).signalled) _ = _
  simp only [State.pid_setPhase, State.signalled_setPhase]
  rfl

/-! ## The invariant is kept -/

/-- The parts of `main`: it creates the groups, starts the workers, and signals and reaps them. -/
inductive Part where
  | groups
  | ready
  | reaping

/-- The part of `main` that a control point belongs to. -/
def MainPoint.part : MainPoint → Part
  | .groupHead _ | .sndMalloc _ | .receiverHead _ _ | .receiverMalloc _ _ | .receiverPipe _ _
  | .receiverFork _ _ | .receiverStore _ _ _ | .senderHead _ _ | .senderFork _ _
  | .senderStore _ _ _ | .groupReturned _ _ | .count _ _ => .groups
  | .setScheduler | .readyHead _ | .readReady _ | .startTime | .wake => .ready
  | .sigcatcher _ | .longjmped | .ignoreTerm | .reapAll | .reap _ _ _ | .kill _ _ _
  | .waitHead _ _ _ | .wait _ _ _ | .report | .freeTab | .exit | .exited _ => .reaping

/-- Creating the groups. -/
theorem groups_inv {ret : Int} (h : Inv o s.core s.point) (hpart : s.point.part = .groups)
    (hs : mainStep o s ret = some s') : Inv o s'.core s'.point := by
  have hl := h.at_point
  have hfds := numFds_pos o
  have hzero : (0 : UInt32).toNat = 0 := rfl
  have hone : (1 : UInt32).toNat = 1 := rfl
  cases hp : s.point <;> rw [hp] at h hl hpart <;> simp only [mainStep, hp] at hs
  case groupHead i =>
    cases hs
    refine h.goto ?_
    split
    · exact hl
    · exact hl
  case sndMalloc i =>
    cases hs
    refine h.goto ?_
    split
    · exact ⟨Nat.zero_le _, hl⟩
    · exact ⟨0, hl, .inr ⟨hzero, by omega⟩⟩
  case receiverHead i j =>
    cases hs
    refine h.goto ?_
    split
    · next hj => exact ⟨UInt32.lt_iff_toNat_lt.1 hj, hl.2⟩
    · next hj =>
      -- all receivers of the group are running
      have heq : j.toNat = o.numFds.toNat := Nat.le_antisymm hl.1 (toNat_le_of_not_lt hj)
      exact ⟨Nat.zero_le _, heq ▸ hl.2⟩
  case receiverMalloc i j =>
    obtain ⟨hj, hb⟩ := hl
    cases hs
    refine h.goto ?_
    split
    · exact ⟨hj, hb⟩
    · exact ⟨j.toNat, hb, .inr ⟨toNat_receiverFailed j, by omega⟩⟩
  case receiverPipe i j =>
    cases hs
    refine h.goto ?_
    split
    · exact hl
    · exact fun hd => absurd hd hl.2.calm.not_delivered
  case receiverFork i j =>
    refine h.fork hl.2 ?_ hs
    exact fun _ _ hc => ⟨hl.1, hc⟩
  case receiverStore i j pid =>
    obtain ⟨hj, hn⟩ := hl
    refine h.store hn (fun hsize => toNat_totalChildren_add hsize rfl) ?_ ?_ hs
    · intro c hpid hc
      rw [if_neg hpid]
      exact ⟨(toNat_succ hj).trans_le hj, (toNat_succ hj).symm ▸ hc⟩
    · intro c hpid hc
      rw [if_pos hpid]
      exact ⟨j.toNat, hc, .inr ⟨toNat_receiverFailed j, by omega⟩⟩
  case senderHead i j =>
    obtain ⟨hle, hb⟩ := hl
    cases hs
    refine h.goto ?_
    split
    · next hj => exact ⟨UInt32.lt_iff_toNat_lt.1 hj, hb⟩
    · next hj =>
      -- the slots of a whole group are in the table
      have hj := toNat_le_of_not_lt hj
      have hsize := hb.size
      have htab := o.tabSize.toNat_lt
      refine ⟨_, hb, .inl ⟨?_, rfl⟩⟩
      rw [toNat_numFds_two (by omega)]
      omega
  case senderFork i j =>
    refine h.fork hl.2 ?_ hs
    exact fun _ _ hc => ⟨hl.1, hc⟩
  case senderStore i j pid =>
    obtain ⟨hj, hn⟩ := hl
    have hadd : (o.numFds + j).toNat = o.numFds.toNat + j.toNat := by
      have hsize : s.core.counted + (o.numFds.toNat + j.toNat) ≤ o.tabSize.toNat := by
        rcases hn with ⟨-, hb⟩ | ⟨-, hb, -⟩
        · exact hb.size
        · exact hb.size
      have htab := o.tabSize.toNat_lt
      exact toNat_add_of_lt (by omega)
    refine h.store hn (fun hsize => ?_) ?_ ?_ hs
    · rw [UInt32.add_assoc]
      exact toNat_totalChildren_add hsize hadd
    · intro c hpid hc
      rw [if_neg hpid]
      refine ⟨(toNat_succ hj).trans_le hj, ?_⟩
      rw [toNat_succ hj]
      exact hc
    · intro c hpid hc
      rw [if_pos hpid]
      refine ⟨_, hc, .inr ⟨?_, by omega⟩⟩
      rw [UInt32.toNat_sub_of_le _ _ (UInt32.le_iff_toNat_le.2 (by omega)), hadd, hone]
  case groupReturned i k =>
    obtain ⟨f, hb, hk⟩ := hl
    cases hs
    refine h.goto ?_
    split
    · next hne =>
      have hk : k.toNat = f - 1 := (hk.resolve_left fun heq => hne heq.2).1
      exact ⟨hb.reaping hk, .inl rfl⟩
    · next hne =>
      have heq : k = o.numFds * 2 := Decidable.not_not.1 hne
      refine ⟨f, hb, by omega, fun hw => ?_⟩
      have := toNat_numFds_two hw
      rw [← heq] at this
      omega
  case count i k =>
    obtain ⟨f, hb, hk, hw⟩ := hl
    cases hs
    exact h.count hb hk hw fun _ hc => hc
  all_goals cases hpart

/-- Waiting for the ready bytes, and waking the workers. -/
theorem ready_inv {ret : Int} (h : Inv o s.core s.point) (hpart : s.point.part = .ready)
    (hs : mainStep o s ret = some s') : Inv o s'.core s'.point := by
  have hl := h.at_point
  cases hp : s.point <;> rw [hp] at h hl hpart <;> simp only [mainStep, hp] at hs
  case setScheduler =>
    cases hs
    refine h.goto ?_
    split
    · exact fun hd => absurd hd hl.calm.not_delivered
    · exact hl
  case readyHead i =>
    cases hs
    refine h.goto ?_
    split
    · exact hl
    · exact hl
  case readReady i =>
    split at hs
    · split at hs
      · cases hs
        exact ⟨h.distinct, h.tab, h.entries, h.le, h.spared, hl⟩
      · cases hs
    · cases hs
      exact h.goto (h.reapCounted (.inl rfl))
  case startTime =>
    cases hs
    exact ⟨h.distinct, h.tab, h.entries, h.le, h.spared, hl⟩
  case wake =>
    split at hs
    · cases hs
      exact ⟨h.distinct, h.tab, h.entries, h.le, h.spared, .inr hl⟩
    · cases hs
      exact h.goto (h.reapCounted (.inl rfl))
  all_goals cases hpart

/-- Signalling and reaping the workers. -/
theorem reaping_inv {ret : Int} (h : Inv o s.core s.point) (hpart : s.point.part = .reaping)
    (hs : mainStep o s ret = some s') : Inv o s'.core s'.point := by
  have hl := h.at_point
  cases hp : s.point <;> rw [hp] at h hl hpart <;> simp only [mainStep, hp] at hs
  case sigcatcher sig =>
    cases hs
    exact h.signals hl
  case longjmped =>
    cases hs
    exact h.signals hl
  case ignoreTerm =>
    cases hs
    exact h.signals (.inl hl)
  case reapAll =>
    cases hs
    exact h.goto (h.reapCounted (hl.imp_right (·.calm)))
  case reap m dokill after =>
    split at hs
    · cases hs
      exact h.signals ⟨⟨hl.1.tab, hl.1.entries, hl.1.all, hl.1.some⟩, Nat.zero_le _,
        fun _ _ hi => absurd hi (Nat.not_lt_zero _)⟩
    · next hk =>
      cases hs
      exact h.goto ⟨hl.1, .inr (hl.2.resolve_left hk)⟩
  case kill k m after =>
    split at hs
    · next hk =>
      split at hs
      · cases hs
        exact h.kill hl.1 hk hl.2.2
      · cases hs
    · next hk =>
      cases hs
      have heq : k = m.toNat := Nat.le_antisymm hl.2.1 (Nat.le_of_not_lt hk)
      exact h.goto ⟨hl.1, .inl (heq ▸ hl.2.2)⟩
  case waitHead k m after =>
    cases hs
    refine h.goto ?_
    have hdone := hl.1.sent_all hl.2
    split
    · exact hl
    · cases after with
      | barf =>
        intro hd
        exact hdone.resolve_right fun hcalm => hcalm.not_delivered hd
      | report => exact hdone
  case wait k m after =>
    obtain ⟨-, -, rfl⟩ | ⟨i, -, -, -, rfl⟩ := State.waitWorker_cases hs
    · exact h.goto hl
    · rw [← core_setPhase s i .reaped] at h hl
      exact h.goto hl
  case report =>
    cases hs
    exact h.goto hl
  case freeTab =>
    split at hs <;> cases hs
    exact ⟨h.distinct, h.tab, h.entries, h.le, h.spared, hl⟩
  case exit =>
    cases hs
    refine h.goto fun hd => ?_
    exact hl.resolve_right fun hcalm => hcalm.not_delivered hd
  case exited => cases hs
  all_goals cases hpart

/-- The next statement of `main` keeps the invariant. -/
theorem main_inv {ret : Int} (h : Inv o s.core s.point) (hs : mainStep o s ret = some s') :
    Inv o s'.core s'.point := by
  cases hpart : s.point.part with
  | groups => exact groups_inv h hpart hs
  | ready => exact ready_inv h hpart hs
  | reaping => exact reaping_inv h hpart hs

/-- The invariant holds at the start. -/
theorem inv_start (o : Options) : Inv o start.core start.point :=
  ⟨⟨fun _ hi => absurd hi (Nat.not_lt_zero _), fun _ hi => absurd hi (Nat.not_lt_zero _)⟩,
    fun _ _ hi => absurd hi (Nat.not_lt_zero _), fun _ hi => absurd hi (Nat.not_lt_zero _),
    Nat.le_refl _, fun hne => absurd rfl hne,
    ⟨⟨fun _ => rfl, rfl, rfl⟩, Nat.le_refl _, fun _ => rfl,
      fun _ _ hi => absurd hi (Nat.not_lt_zero _), fun _ hi => absurd hi (Nat.not_lt_zero _),
      Nat.zero_le _, fun _ hi => absurd hi (Nat.not_lt_zero _)⟩⟩

/-- Every step keeps the invariant. -/
theorem step_inv (h : Inv o s.core s.point) (hs : step o s e = some s') :
    Inv o s'.core s'.point := by
  cases moves_of_step hs with
  | main hs => exact main_inv h hs
  | caught => exact h.signals rfl
  | ignored hl hc => exact h.signals (h.at_point.ignored hc hl)
  | @ready k | @woken k | @exit k | @fail k | @term k =>
    exact h.of_core_eq (core_setPhase s k _) rfl
  | data => exact h.of_core_eq rfl rfl

/-- The invariant holds in every state reached. -/
theorem reach_inv {C : State → Event → Prop} (h : Reach (step o) C start s) :
    Inv o s.core s.point :=
  h.invariant (I := fun s => Inv o s.core s.point) (inv_start o) fun _ _ _ hi _ hs => step_inv hi hs

/-! ## After a delivery -/

/-- The workers that are forked and counted are the same in two states. -/
def SameCount (s s' : State) : Prop :=
  s'.forked = s.forked ∧ s'.totalChildren = s.totalChildren

/-- The control points from which `main` forks or counts. -/
def MainPoint.grows : MainPoint → Bool
  | .receiverFork _ _ | .senderFork _ _ | .count _ _ => true
  | _ => false

/-- `main` forks and counts only there, delivers no signal to itself, takes no byte out of the wake
pipe, and frees the table right before its exit. -/
theorem main_keeps {ret : Int} (hs : mainStep o s ret = some s') :
    s'.delivered = s.delivered ∧ (s.point.grows = false → SameCount s s') ∧
      s.wakeBytes ≤ s'.wakeBytes ∧ (s'.tabFreed = s.tabFreed ∨ s'.point = .exit) := by
  cases hp : s.point <;> simp only [mainStep, hp] at hs
  case receiverFork | senderFork =>
    obtain ⟨-, rfl⟩ | ⟨-, -, -, rfl⟩ := State.fork_cases hs
    · exact ⟨rfl, fun _ => ⟨rfl, rfl⟩, Nat.le_refl _, .inl rfl⟩
    · exact ⟨rfl, fun hg => Bool.noConfusion hg, Nat.le_refl _, .inl rfl⟩
  case count =>
    cases hs
    exact ⟨rfl, fun hg => Bool.noConfusion hg, Nat.le_refl _, .inl rfl⟩
  case receiverStore | senderStore =>
    obtain ⟨-, rfl⟩ := State.store_cases hs
    exact ⟨rfl, fun _ => ⟨rfl, rfl⟩, Nat.le_refl _, .inl rfl⟩
  case readReady | kill =>
    split at hs
    · split at hs
      · cases hs
        exact ⟨rfl, fun _ => ⟨rfl, rfl⟩, Nat.le_refl _, .inl rfl⟩
      · cases hs
    · cases hs
      exact ⟨rfl, fun _ => ⟨rfl, rfl⟩, Nat.le_refl _, .inl rfl⟩
  case wake =>
    split at hs
    · cases hs
      exact ⟨rfl, fun _ => ⟨rfl, rfl⟩, Nat.le_succ _, .inl rfl⟩
    · cases hs
      exact ⟨rfl, fun _ => ⟨rfl, rfl⟩, Nat.le_refl _, .inl rfl⟩
  case reap =>
    split at hs <;> cases hs <;> exact ⟨rfl, fun _ => ⟨rfl, rfl⟩, Nat.le_refl _, .inl rfl⟩
  case freeTab =>
    split at hs <;> cases hs
    exact ⟨rfl, fun _ => ⟨rfl, rfl⟩, Nat.le_refl _, .inr rfl⟩
  case wait =>
    obtain ⟨-, -, rfl⟩ | ⟨i, -, -, -, rfl⟩ := State.waitWorker_cases hs
    · exact ⟨rfl, fun _ => ⟨rfl, rfl⟩, Nat.le_refl _, .inl rfl⟩
    · exact ⟨rfl, fun _ => ⟨rfl, rfl⟩, Nat.le_refl _, .inl rfl⟩
  case exited => cases hs
  all_goals
    cases hs
    exact ⟨rfl, fun _ => ⟨rfl, rfl⟩, Nat.le_refl _, .inl rfl⟩

/-- No signal has been delivered where `main` forks or counts. -/
theorem Core.At.calm {l : MainPoint} (h : c.At o l) (hl : l.grows = true) : c.Calm := by
  cases l with
  | receiverFork | senderFork => exact h.2.calm
  | count =>
    obtain ⟨f, hb, -⟩ := h
    exact hb.calm
  | _ => cases hl

/-- After a delivery nothing is forked or counted any more. -/
theorem frozen_step (h : Inv o s.core s.point) (hd : s.delivered = true)
    (hs : step o s e = some s') : s'.delivered = true ∧ SameCount s s' := by
  cases moves_of_step hs with
  | main hs =>
    obtain ⟨hkeep, hsame, -⟩ := main_keeps hs
    refine ⟨hkeep.trans hd, hsame ?_⟩
    exact Bool.eq_false_iff.2 fun hg => (h.at_point.calm hg).not_delivered hd
  | caught | ignored => exact ⟨rfl, rfl, rfl⟩
  | ready | woken | data | exit | fail | term => exact ⟨hd, rfl, rfl⟩

/-- After a delivery nothing is forked or counted for the rest of the run. -/
theorem frozen {C : State → Event → Prop} (h : Inv o s.core s.point) (hd : s.delivered = true)
    (hr : Reach (step o) C s s') : Inv o s'.core s'.point ∧ SameCount s s' := by
  have hall : Inv o s'.core s'.point ∧ s'.delivered = true ∧ SameCount s s' := by
    refine hr.invariant (I := fun t => Inv o t.core t.point ∧ t.delivered = true ∧ SameCount s t)
      ⟨h, hd, rfl, rfl⟩ ?_
    rintro t e t' ⟨hi, hd, hf, ht⟩ - hs
    obtain ⟨hd', hf', ht'⟩ := frozen_step hi hd hs
    exact ⟨step_inv hi hs, hd', hf'.trans hf, ht'.trans ht⟩
  exact ⟨hall.1, hall.2.2⟩

/-! ## Behind the `free` -/

/-- Where a signal leads behind the `free`, up to the statements that read the table or free it
again. -/
def MainPoint.again : MainPoint → Bool
  | .sigcatcher _ | .longjmped | .ignoreTerm | .reapAll | .reap _ _ .report | .kill _ _ .report
  | .waitHead _ _ .report | .wait _ _ .report | .report | .freeTab => true
  | _ => false

/-- With a freed table, `main` does not come past these points. -/
theorem again_main {ret : Int} (hf : s.tabFreed = true) (hl : s.point.again = true)
    (hs : mainStep o s ret = some s') : s'.tabFreed = true ∧ s'.point.again = true := by
  cases hp : s.point <;> rw [hp] at hl <;> simp only [mainStep, hp] at hs
  case sigcatcher | longjmped | ignoreTerm | reapAll | report =>
    cases hs
    exact ⟨hf, rfl⟩
  case reap n dokill after =>
    cases after <;> cases hl
    split at hs <;> cases hs <;> exact ⟨hf, rfl⟩
  case kill k n after =>
    cases after <;> cases hl
    split at hs
    · split at hs <;> cases hs
      exact ⟨hf, rfl⟩
    · cases hs
      exact ⟨hf, rfl⟩
  case waitHead k n after =>
    cases after <;> cases hl
    cases hs
    dsimp only [State.goto]
    split <;> exact ⟨hf, rfl⟩
  case wait k n after =>
    cases after <;> cases hl
    obtain ⟨-, -, rfl⟩ | ⟨i, -, -, -, rfl⟩ := State.waitWorker_cases hs <;> exact ⟨hf, rfl⟩
  case freeTab =>
    rw [if_neg (by rw [hf]; exact Bool.noConfusion)] at hs
    cases hs
  all_goals cases hl

/-- `main` is at its exit, behind the `free`, or has exited. -/
def MainPoint.behindFree : MainPoint → Bool
  | .exit | .exited _ => true
  | _ => false

/-- The table is there up to the exit. -/
def State.TabKept (s : State) : Prop := s.tabFreed = true → s.point.behindFree = true

/-- Elsewhere the table is not freed. -/
theorem State.TabKept.not_freed (h : s.TabKept) (hl : s.point.behindFree = false) :
    s.tabFreed = false :=
  Bool.eq_false_iff.2 fun hf => Bool.false_ne_true (hl.symm.trans (h hf))

/-- A signal that is caught behind the `free` is the only one to lead back to the table. -/
theorem tabKept_step (h : s.TabKept)
    (hC : ∀ sig, e = .deliver sig → s.catches sig = true → s.tabFreed = false)
    (hs : step o s e = some s') : s'.TabKept := by
  cases moves_of_step hs with
  | main hs =>
    intro hf
    obtain ⟨-, -, -, hsame | hexit⟩ := main_keeps hs
    · have hl := h (hsame.symm.trans hf)
      cases hp : s.point <;> rw [hp] at hl <;> simp only [mainStep, hp] at hs
      case exit => cases hs; rfl
      case exited => cases hs
      all_goals cases hl
    · rw [hexit]
      rfl
  | @caught sig _ hc =>
    intro hf
    exact absurd ((hC sig rfl hc).symm.trans hf) Bool.false_ne_true
  | ignored | ready | woken | data | exit | fail | term => exact h

/-- A signal that is caught behind the `free` keeps `main` from its exit. -/
theorem again_reach {C : State → Event → Prop} (hf : s.tabFreed = true) (hl : s.point.again = true)
    (hr : Reach (step o) C s s') : s'.point.isExited = false := by
  have hagain : s'.tabFreed = true ∧ s'.point.again = true := by
    refine hr.invariant (I := fun t => t.tabFreed = true ∧ t.point.again = true) ⟨hf, hl⟩ ?_
    rintro t e t' ⟨hf, hl⟩ - hs
    cases moves_of_step hs with
    | main hs => exact again_main hf hl hs
    | caught => exact ⟨hf, rfl⟩
    | ignored | ready | woken | data | exit | fail | term => exact ⟨hf, hl⟩
  cases hp : s'.point with
  | exited =>
    rw [hp] at hagain
    cases hagain.2
  | _ => rfl

/-! ## The theorem -/

/-- When a signal is delivered, every worker forked so far is counted in `total_children`, and it is
not caught behind the `free` of the table. -/
def CountedDelivery (s : State) : Event → Prop
  | .deliver sig =>
    s.forked = s.totalChildren.toNat ∧ (s.catches sig = true → s.tabFreed = false)
  | _ => True

instance (s : State) : ∀ e, Decidable (CountedDelivery s e)
  | .deliver _ => inferInstanceAs (Decidable (_ ∧ (_ → _)))
  | .main _ | .worker _ | .data _ | .exit _ | .fail _ | .term _ => .isTrue trivial

/-- Every worker forked so far has been sent SIGTERM. -/
def State.AllSignalled (s : State) : Prop := ∀ k < s.forked, (s.workers k).signalled = true

/-- In a run in which signals are delivered only while every worker is counted, all of them are
counted from the first delivery on. -/
theorem counted_of_delivered (h : Reach (step o) CountedDelivery start s)
    (hd : s.delivered = true) : s.forked = s.totalChildren.toNat := by
  induction h with
  | refl => cases hd
  | @tail s s' e hr hC hs ih =>
    cases hd' : s.delivered with
    | true =>
      obtain ⟨-, hf, ht⟩ := frozen_step (reach_inv hr) hd' hs
      rw [hf, ht]
      exact ih hd'
    | false =>
      -- the step delivers the first signal
      cases moves_of_step hs with
      | caught | ignored => exact hC.1
      | main hs =>
        exact absurd (hd'.symm.trans ((main_keeps hs).1.symm.trans hd)) Bool.false_ne_true
      | ready | woken | data | exit | fail | term =>
        exact absurd (hd'.symm.trans hd) Bool.false_ne_true

/-- After a delivery while a worker is not counted, some worker is never sent SIGTERM. -/
theorem not_allSignalled {s₁ s₂ : State} {sig : Sig} (h₁ : Reach (step o) Free start s₁)
    (hs : step o s₁ (.deliver sig) = some s₂) (hne : s₁.forked ≠ s₁.totalChildren.toNat)
    (hr : Reach (step o) Free s₂ s) : ¬ s.AllSignalled := by
  intro hall
  have hinv := reach_inv h₁
  obtain ⟨hd, hf₂, ht₂⟩ : s₂.delivered = true ∧ SameCount s₁ s₂ := by
    cases moves_of_step hs with
    | caught | ignored => exact ⟨rfl, rfl, rfl⟩
  obtain ⟨hi, hf, ht⟩ := frozen (step_inv hinv hs) hd hr
  have hne : s.core.forked ≠ s.core.counted := by
    rw [show s.core.forked = s₁.forked from hf.trans hf₂,
      show s.core.counted = s₁.totalChildren.toNat from congrArg UInt32.toNat (ht.trans ht₂)]
    exact hne
  exact hi.spared.not_all hi.distinct hne hall

/-- Hackbench leaves no worker behind when it is stopped exactly when every worker it has forked
is counted, and the table is not freed: in a run that delivers signals only then, every worker has
been sent SIGTERM when `main` has exited; after a delivery while some worker is not counted, some
worker never is; and behind the `free` a signal that is caught keeps `main` from its exit, since it
reads the freed table or frees it again. -/
theorem stop_exactly (o : Options) :
    (∀ s, Reach (step o) CountedDelivery start s → s.point.isExited = true →
        s.delivered = true → s.AllSignalled) ∧
      ∀ s₁ sig s₂ s, Reach (step o) Free start s₁ → step o s₁ (.deliver sig) = some s₂ →
        Reach (step o) Free s₂ s →
        (s₁.forked ≠ s₁.totalChildren.toNat → ¬ s.AllSignalled) ∧
        (s₁.catches sig = true ∧ s₁.tabFreed = true → s.point.isExited = false) := by
  refine ⟨fun s hr hl hd => ?_, fun s₁ sig s₂ s h₁ hs hr =>
    ⟨fun hne => not_allSignalled h₁ hs hne hr, fun ⟨hc, hf⟩ => ?_⟩⟩
  · have hinv := reach_inv hr
    have hat := hinv.at_point
    cases hp : s.point with
    | exited =>
      rw [hp] at hat
      exact hat hd (counted_of_delivered hr hd)
    | _ =>
      rw [hp] at hl
      cases hl
  · have hagain : s₂.tabFreed = true ∧ s₂.point.again = true := by
      cases moves_of_step hs with
      | caught => exact ⟨hf, rfl⟩
      | ignored _ hno => exact absurd (hno.symm.trans hc) Bool.false_ne_true
    exact again_reach hagain.1 hagain.2 hr

end

/-! ## One group with one receiver and one sender -/

/-- One receiver and one sender. -/
def oneGroup : Options where
  numGroups := 1
  numFds := 1
  one_le_numGroups := UInt32.le_iff_toNat_le.2 (Nat.le_refl 1)
  one_le_numFds := UInt32.le_iff_toNat_le.2 (Nat.le_refl 1)

/-- SIGTERM is delivered while `main` waits for the ready bytes: the group is counted. -/
def stoppedAtBarrier : List Event :=
  [.main 0, .main 1, .main 0, .main 1, .main 0, .main 100, .main 0, .main 0, .main 0, .main 101] ++
    List.replicate 7 (.main 0) ++ [.deliver .term] ++ List.replicate 8 (.main 0) ++
    [.term 0, .term 1, .main 0, .main 101, .main 0, .main 100, .main 0, .main 0, .main 0, .main 0]

/-- Both workers are sent SIGTERM. -/
theorem stopped_at_barrier :
    ∃ s, Reach (step oneGroup) CountedDelivery start s ∧ s.forked = 2 ∧ s.AllSignalled := by
  have h := (stop_exactly oneGroup).1 _ (.of_exec stoppedAtBarrier rfl) rfl rfl
  exact ⟨_, .of_exec stoppedAtBarrier rfl, rfl, h⟩

/-- SIGTERM is delivered after a run in which nothing failed, behind the `free` of the table: `main`
comes to read the table. -/
def stoppedBehindFree : List Event :=
  [.main 0, .main 1, .main 0, .main 1, .main 0, .main 100, .main 0, .main 0, .main 0, .main 101] ++
    List.replicate 5 (.main 0) ++
    [.worker 0, .worker 1, .main 0, .main 0, .main 1, .main 0, .main 1, .main 0, .main 0, .main 1,
      .worker 0, .worker 1, .data 1, .exit 1, .exit 0, .main 0, .main 0, .main 0, .main 100,
      .main 0, .main 101, .main 0, .main 0, .main 0, .deliver .term] ++
    List.replicate 5 (.main 0)

/-- The table is freed, and `main` can make no statement that has a meaning. -/
theorem freed_table_read :
    ∃ s, Reach (step oneGroup) Free start s ∧ s.tabFreed = true ∧ s.point = .kill 0 2 .report ∧
      ∀ ret, step oneGroup s (.main ret) = none := by
  have hend : (exec (step oneGroup) Free start stoppedBehindFree).map
      (fun s => (s.tabFreed, s.point)) = some (true, .kill 0 2 .report) := by
    decide +kernel
  obtain ⟨s, hrun, heq⟩ := Option.map_eq_some_iff.1 hend
  obtain ⟨hf, hp⟩ := Prod.mk.inj heq
  refine ⟨s, .of_exec stoppedBehindFree hrun, hf, hp, fun ret => ?_⟩
  simp [step, mainStep, hp, hf]

/-- SIGTERM is delivered after the first receiver has been forked. `main` has counted no worker,
sends no signal, and waits for none. -/
def stoppedInGroup : List Event :=
  [.main 0, .main 1, .main 0, .main 1, .main 0, .main 100, .main 0, .deliver .term] ++
    List.replicate 10 (.main 0)

/-- The receiver is left behind. -/
theorem receiver_left_behind :
    ∃ s, Reach (step oneGroup) Free start s ∧ s.point.isExited = true ∧ s.delivered = true ∧
      ¬ s.AllSignalled :=
  ⟨_, .of_exec stoppedInGroup rfl, rfl, rfl,
    fun h => absurd (h 0 (Nat.zero_lt_succ 0)) (by decide)⟩

end Hackbench
