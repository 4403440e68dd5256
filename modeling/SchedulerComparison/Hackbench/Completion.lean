import SchedulerComparison.Hackbench.System

/-!
# Hackbench completes

A run of hackbench in which nothing fails comes to its end: `main` collects a ready byte from every
worker, wakes them, and waits for them, and the workers exchange their messages meanwhile.
`completes_iff` shows that this is so exactly when neither the number of workers nor
`num_fds * loops` wraps: no state before the end is one in which nobody can go on, the runs are of
bounded length, and at the end all messages are received and all workers are waited for.

Otherwise `main` stores the pid of a worker outside of its table, or the receivers never count to
the end. The measure (`System.rest`) adds up what `main`, each worker and each group have left to
do; what connects the workers with their loops is `System.Tied`.
-/

open Transition Finset

namespace Hackbench

/-- The worker has exited. -/
def Phase.ended : Phase → Bool
  | .start | .polling | .running => false
  | .zombie | .reaped => true

/-! ## The workers and their loops -/

section
variable {o : Options} {p p' : State} {e : Event} {k : Nat}

/-- When nothing fails, a worker that has exited had exited before, or exits now. -/
theorem ended_of_step (hC : NoFault p e) (hs : step o p e = some p') (hk : k < p'.forked)
    (h : (p'.workers k).phase.ended = true) :
    k < p.forked ∧ ((p.workers k).phase.ended = true ∨ e = .exit k) := by
  have hphase : ∀ {i : Nat} {x : Phase}, ((p.setPhase i x).workers k).phase.ended = true →
      (p.workers k).phase.ended = true ∨ k = i ∧ x.ended = true := by
    intro i x hx
    rw [State.phase_setPhase] at hx
    split at hx
    · next hi => exact .inr ⟨hi, hx⟩
    · exact .inl hx
  cases moves_of_step hs with
  | ready | woken => exact ⟨hk, .inl ((hphase h).resolve_right fun hx => nomatch hx.2)⟩
  | data => exact ⟨hk, .inl h⟩
  | exit =>
    obtain hx | ⟨rfl, -⟩ := hphase h
    · exact ⟨hk, .inl hx⟩
    · exact ⟨hk, .inr rfl⟩
  | caught | ignored | fail | term => exact hC.elim
  | main hs =>
    cases (workersMove_main hs).1 with
    | same hf hw => exact ⟨hf ▸ hk, .inl (hw ▸ h)⟩
    | term hf hw =>
      rw [hw, State.phase_sendTerm] at h
      exact ⟨hf ▸ hk, .inl h⟩
    | reap hx hf hw =>
      rw [hw] at h
      obtain hend | ⟨rfl, -⟩ := hphase h
      · exact ⟨hf ▸ hk, .inl hend⟩
      · exact ⟨hf ▸ hk, .inl (by rw [hx]; rfl)⟩
    | fork hl hf hw =>
      rw [hw] at h
      by_cases hnew : k = p.forked
      · subst hnew
        rw [Function.update_self] at h
        cases h
      · rw [Function.update_of_ne hnew] at h
        exact ⟨by omega, .inl h⟩

/-- Data is written by the senders only. -/
theorem dataWritten_of_step (hdata : ∀ k, e ≠ .data k) (hs : step o p e = some p') :
    p'.dataWritten = p.dataWritten := by
  cases moves_of_step hs with
  | main hs => exact (workersMove_main hs).2
  | data => exact absurd rfl (hdata _)
  | caught | ignored | ready | woken | exit | fail | term => rfl

end

namespace Packets

section
variable {c : Copy} {p : Params} {g g' : Group} {place : Nat}

/-- A sender or receiver that has returned takes no step. -/
theorem Group.Returned.moves (h : g.Returned p.numFds.toNat place) (hm : Moves c p g g') :
    g'.Returned p.numFds.toNat place := by
  have hsender : ∀ {q : Nat} {y : SenderPoint}, g.senders q ≠ .returned →
      (if place < p.numFds.toNat then g.receivers place = .left
        else Function.update g.senders q y (place - p.numFds.toNat) = .returned) := by
    intro q y hq
    unfold Group.Returned at h
    split at h
    · next hplace => rwa [if_pos hplace]
    · next hplace =>
      have hne : place - p.numFds.toNat ≠ q := fun heq => hq (heq ▸ h)
      rwa [if_neg hplace, Function.update_of_ne hne]
  have hreceiver : ∀ {q : Nat} {y : ReceiverPoint}, g.receivers q ≠ .left →
      (if place < p.numFds.toNat then Function.update g.receivers q y place = .left
        else g.senders (place - p.numFds.toNat) = .returned) := by
    intro q y hq
    unfold Group.Returned at h
    split at h
    · next hplace =>
      have hne : place ≠ q := fun heq => hq (heq ▸ h)
      rwa [if_pos hplace, Function.update_of_ne hne]
    · next hplace => rwa [if_neg hplace]
  cases hm with
  | senderLoop hq hy => exact hsender fun hx => by rw [hx] at hy; cases hy
  | senderWrite hq hx => exact hsender fun hret => by rw [hx] at hret; cases hret
  | receiverLoop hq hy => exact hreceiver fun hx => by rw [hx] at hy; cases hy
  | receiverRead hq hx => exact hreceiver fun hleft => by rw [hx] at hleft; cases hleft

/-- When nothing in a group can move and the number of packets fits 32 bits, all have returned. -/
theorem returned_of_stuck (hlt : p.numFds.toNat * p.loops.toNat < 2 ^ 32)
    (hg : Reach (step c p) Free init g) (hst : Stuck (step c p) g)
    (hplace : place < 2 * p.numFds.toNat) : g.Returned p.numFds.toNat place := by
  have hcons : Conserves c p := conserves_of_lt hlt
  have hleft := hcons.allLeave g hg hst
  unfold Group.Returned
  split
  · next hr => exact hleft _ hr
  · next hr =>
    refine (stuck_sender (reach_inv hg) hst (by omega)).resolve_right ?_
    rintro ⟨r, hr, hfull⟩
    obtain ⟨hconsumed, hwritten, -⟩ := hcons.exact g hg r hr (hleft r hr)
    omega

end

end Packets

section
variable {u : Setup} {s s' : System} {e : SystemEvent} {k n i : Nat} {g : Packets.Group}

theorem Setup.fds_eq (u : Setup) : u.params.numFds.toNat = u.fds := by
  rw [u.numFds_eq]
  rfl

/-- A worker that is not about to write leaves what is written to the pipes. -/
theorem written_of_loop
    (hg : Packets.step .hackbench u.params (s.groups (u.groupOf k)) (u.loopEvent k n) = some g)
    (hw : s.writes u k = false) : g.written = (s.groups (u.groupOf k)).written := by
  unfold System.writes Packets.Group.writes at hw
  unfold Setup.loopEvent Setup.funcOf at hg
  split at hw
  · next hplace =>
    rw [if_pos hplace] at hg
    simp only [Packets.step] at hg
    split at hg
    · split at hg
      · split at hg <;> cases hg
        rfl
      · obtain ⟨y, -, rfl⟩ := Option.map_eq_some_iff.1 hg
        rfl
    · cases hg
  · next hplace =>
    rw [if_neg hplace] at hg
    simp only [Packets.step] at hg
    split at hg
    · split at hg
      · next hx =>
        rw [hx] at hw
        cases hw
      · obtain ⟨y, -, rfl⟩ := Option.map_eq_some_iff.1 hg
        rfl
    · cases hg

/-- What connects the workers with their loops: who has exited has returned, and before the first
write the pipes are empty. -/
structure System.Tied (u : Setup) (s : System) : Prop where
  returned : ∀ k < s.procs.forked, (s.procs.workers k).phase.ended = true → s.Returned u k
  unwritten : s.procs.dataWritten = false → ∀ i r, (s.groups i).written r = 0

/-- The workers after a step of a loop. -/
theorem looped_eq (s : System) (k : Nat) : (s.looped u k).forked = s.procs.forked ∧
    (s.looped u k).workers = s.procs.workers ∧ (s.looped u k).point = s.procs.point := by
  unfold System.looped
  split <;> exact ⟨rfl, rfl, rfl⟩

/-- Every step in which nothing fails keeps the connection. -/
theorem tied_step (h : s.Tied u) (hC : SystemNoFault s e) (hs : s.step u e = some s') :
    s'.Tied u := by
  cases systemMoves_of_step hs with
  | @proc e procs hprocs hexit =>
    refine ⟨fun k hk hend => ?_, fun hdata => ?_⟩
    · obtain ⟨hk, hend | rfl⟩ := ended_of_step hC hprocs hk hend
      · exact h.returned k hk hend
      · exact hexit k rfl
    · have hkeep : ∀ k, e ≠ .data k := by
        rintro k rfl
        cases hs
      exact h.unwritten ((dataWritten_of_step hkeep hprocs).symm.trans hdata)
  | @loop k n g hk hx hg =>
    obtain ⟨hforked, hworkers, -⟩ := looped_eq (u := u) s k
    refine ⟨fun j hj hend => ?_, fun hdata i r => ?_⟩
    · have hret : s.Returned u j := h.returned j (hforked ▸ hj) (hworkers ▸ hend)
      show Packets.Group.Returned u.fds (Function.update s.groups (u.groupOf k) g (u.groupOf j)) _
      by_cases hi : u.groupOf j = u.groupOf k
      · rw [hi, Function.update_self, ← u.fds_eq]
        unfold System.Returned at hret
        rw [hi, ← u.fds_eq] at hret
        exact hret.moves (Packets.moves_of_step hg)
      · rw [Function.update_of_ne hi]
        exact hret
    · have hw : s.writes u k = false ∧ s.procs.dataWritten = false := by
        change (s.looped u k).dataWritten = false at hdata
        unfold System.looped at hdata
        split at hdata
        · cases hdata
        · next hw => exact ⟨Bool.eq_false_iff.2 hw, hdata⟩
      show (Function.update s.groups (u.groupOf k) g i).written r = 0
      by_cases hi : i = u.groupOf k
      · rw [hi, Function.update_self, written_of_loop hg hw.1]
        exact h.unwritten hw.2 _ r
      · rw [Function.update_of_ne hi]
        exact h.unwritten hw.2 i r

theorem reach_tied (h : Reach (System.step u) SystemNoFault System.start s) : s.Tied u :=
  h.invariant ⟨fun _ hk => absurd hk (Nat.not_lt_zero _), fun _ _ _ => rfl⟩
    fun _ _ _ ht hC hs => tied_step ht hC hs

/-! ## Every run ends -/

/-- What is left to do. -/
def System.rest (u : Setup) (s : System) : Nat :=
  s.procs.rest u.options + ∑ i ∈ range u.options.numGroups.toNat, (s.groups i).rest u.params

/-- The gate is open where a worker is running. -/
theorem open_of_running {o : Options} {p : State} (h : Reach (Hackbench.step o) NoFault start p)
    (hk : k < p.forked) (hx : (p.workers k).phase = .running) : p.Open o := by
  obtain ⟨n, hclosed⟩ | hopen := (reach_gate h).cases
  · exact absurd hx (hclosed.not_running hk)
  · exact hopen

/-- The number of workers, group by group. -/
theorem Setup.workers_eq (u : Setup) :
    u.options.workers = u.options.numGroups.toNat * (2 * u.fds) := Nat.mul_assoc _ _ _

/-- The group of a worker. -/
theorem groupOf_lt (hk : k < u.options.workers) : u.groupOf k < u.options.numGroups.toNat := by
  rw [u.workers_eq, Nat.mul_comm] at hk
  exact Nat.div_lt_of_lt_mul hk

/-- Every step leaves less to do, when nothing fails. -/
theorem System.rest_step (h : Reach (System.step u) SystemNoFault System.start s)
    (hC : SystemNoFault s e) (hs : s.step u e = some s') : s'.rest u < s.rest u := by
  have hprocs := reach_procs h
  cases systemMoves_of_step hs with
  | @proc e procs hstep hexit =>
    have hdata : ∀ k, e ≠ .data k := by
      rintro k rfl
      cases hs
    exact Nat.add_lt_add_right
      (Hackbench.rest_step (reach_inv hprocs) (reach_gate hprocs) (reach_faultless hprocs) hC
        hdata hstep) _
  | @loop k n g hk hx hg =>
    have hopen := open_of_running hprocs hk hx
    have hgroup := groupOf_lt (hopen.forked ▸ hk)
    have hlt := (Packets.inv_step (Packets.reach_inv (reach_group h (u.groupOf k))) hg).2
    have hsum := sum_update (range u.options.numGroups.toNat) s.groups (·.rest u.params)
      (mem_range.2 hgroup) g
    have hsame : (s.looped u k).rest u.options = s.procs.rest u.options := by
      unfold System.looped
      split <;> rfl
    show (s.looped u k).rest u.options + ∑ i ∈ range u.options.numGroups.toNat,
      (Function.update s.groups (u.groupOf k) g i).rest u.params < s.rest u
    rw [hsame, System.rest]
    omega

/-- No run in which nothing fails is longer than what is to do at the start. -/
theorem System.length_le (es : List SystemEvent)
    (h : exec (System.step u) SystemNoFault System.start es = some s) :
    es.length ≤ System.start.rest u := by
  have hle := exec_kind_le (I := fun s => Reach (System.step u) SystemNoFault System.start s)
    (System.rest u) (fun _ => true)
    (fun s e s' hr hC hs => ⟨hr.tail hC hs, System.rest_step hr hC hs⟩) es .refl h
  rwa [List.countP_true] at hle

/-! ## Nobody waits for ever -/

/-- A step in a group is one of a worker of it. -/
theorem exists_worker {c : Packets.Copy} {x : Packets.Event} {g' : Packets.Group}
    (hi : i < u.options.numGroups.toNat) (h : Packets.step c u.params g x = some g') :
    ∃ k n, k < u.options.workers ∧ u.groupOf k = i ∧ u.loopEvent k n = x := by
  have hnumber : ∀ place : Nat, place < 2 * u.fds →
      i * (2 * u.fds) + place < u.options.workers ∧ u.groupOf (i * (2 * u.fds) + place) = i ∧
        u.placeOf (i * (2 * u.fds) + place) = place := by
    intro place hplace
    have hle : (i + 1) * (2 * u.fds) ≤ u.options.numGroups.toNat * (2 * u.fds) :=
      Nat.mul_le_mul_right _ hi
    rw [Nat.succ_mul, ← u.workers_eq] at hle
    refine ⟨by omega, ?_, ?_⟩
    · rw [Setup.groupOf, Nat.mul_comm, Nat.mul_add_div (Nat.zero_lt_of_lt hplace),
        Nat.div_eq_of_lt hplace, Nat.add_zero]
    · rw [Setup.placeOf, Nat.mul_add_mod']
      exact Nat.mod_eq_of_lt hplace
  have hfds := u.fds_eq
  cases x with
  | sender q n =>
    simp only [Packets.step] at h
    split at h
    · next hq =>
      obtain ⟨hk, hgroup, hplace⟩ := hnumber (u.fds + q) (by omega)
      refine ⟨_, n, hk, hgroup, ?_⟩
      have hfunc : u.funcOf (i * (2 * u.fds) + (u.fds + q)) = .sender := by
        rw [Setup.funcOf, hplace]
        exact if_neg (by omega)
      rw [Setup.loopEvent, hfunc, hplace, Nat.add_sub_cancel_left]
    · cases h
  | receiver q n =>
    simp only [Packets.step] at h
    split at h
    · next hq =>
      obtain ⟨hk, hgroup, hplace⟩ := hnumber q (by omega)
      refine ⟨_, n, hk, hgroup, ?_⟩
      have hfunc : u.funcOf (i * (2 * u.fds) + q) = .receiver := by
        rw [Setup.funcOf, hplace]
        exact if_pos (by omega)
      rw [Setup.loopEvent, hfunc, hplace]
    · cases h

/-- Who has returned takes no step. -/
theorem no_loop_of_returned (hret : s.Returned u k) :
    Packets.step .hackbench u.params (s.groups (u.groupOf k)) (u.loopEvent k n) = none := by
  have hfds := u.fds_eq
  unfold System.Returned Packets.Group.Returned at hret
  unfold Setup.loopEvent Setup.funcOf
  split at hret
  · next hplace =>
    rw [if_pos hplace]
    simp only [Packets.step, hret, Packets.ReceiverPoint.next, Option.map_none, ite_self]
  · next hplace =>
    rw [if_neg hplace]
    simp only [Packets.step, hret, Packets.SenderPoint.next, Option.map_none, ite_self]

/-- There is a step in which nothing fails. -/
def System.Goes (u : Setup) (s : System) : Prop :=
  ∃ e s', SystemNoFault s e ∧ s.step u e = some s'

/-- A worker that has not written its ready byte can write it. -/
theorem goes_of_start (hk : k < s.procs.forked) (hx : (s.procs.workers k).phase = .start) :
    s.Goes u := by
  have hs : Hackbench.step u.options s.procs (.worker k) =
      some { s.procs.setPhase k .polling with readyBytes := s.procs.readyBytes + 1 } := by
    rw [Hackbench.step, hx]
    exact if_pos hk
  exact ⟨.proc (.worker k), _, trivial, congrArg (Option.map _) hs⟩

/-- A worker that polls is woken when the gate is open. -/
theorem goes_of_polling (hopen : s.procs.Open u.options) (hk : k < s.procs.forked)
    (hx : (s.procs.workers k).phase = .polling) : s.Goes u := by
  have hs : Hackbench.step u.options s.procs (.worker k) = some (s.procs.setPhase k .running) := by
    rw [Hackbench.step, hx]
    exact if_pos ⟨hk, hopen.wake ▸ Nat.one_pos⟩
  exact ⟨.proc (.worker k), _, trivial, congrArg (Option.map _) hs⟩

/-- A running worker that has returned can exit. -/
theorem goes_of_returned (hk : k < s.procs.forked) (hx : (s.procs.workers k).phase = .running)
    (hret : s.Returned u k) : s.Goes u := by
  have hs : Hackbench.step u.options s.procs (.exit k) = some (s.procs.setPhase k .zombie) :=
    if_pos ⟨hk, hx⟩
  refine ⟨.proc (.exit k), { s with procs := s.procs.setPhase k .zombie }, trivial, ?_⟩
  rw [System.step, if_pos hret, hs]
  rfl

/-- Where a worker has not exited, one of its group can go on: it is still at its `poll`, or in its
loop, or has returned. -/
theorem goes_of_unfinished (hlt : u.fds * u.params.loops.toNat < 2 ^ 32)
    (hr : Reach (System.step u) SystemNoFault System.start s) (hopen : s.procs.Open u.options)
    (hk : k < s.procs.forked) (hx : (s.procs.workers k).phase.ended = false) : s.Goes u := by
  have hgroup := reach_group hr (u.groupOf k)
  have hin : k < u.options.workers := hopen.forked ▸ hk
  cases hphase : (s.procs.workers k).phase with
  | start => exact goes_of_start hk hphase
  | polling => exact goes_of_polling hopen hk hphase
  | zombie | reaped =>
    rw [hphase] at hx
    cases hx
  | running =>
    by_cases hst : Stuck (Packets.step .hackbench u.params) (s.groups (u.groupOf k))
    · have hfds := u.fds_eq
      have hplace : u.placeOf k < 2 * u.params.numFds.toNat := by
        rw [hfds]
        exact Nat.mod_lt _ (by have := numFds_pos u.options; unfold Setup.fds; omega)
      have hret := Packets.returned_of_stuck (hfds ▸ hlt) hgroup hst hplace
      rw [hfds] at hret
      exact goes_of_returned hk hphase hret
    · -- the step of the group is one of a worker, and that one is not past its loop
      obtain ⟨x, hx⟩ := not_forall.1 hst
      obtain ⟨g, hg⟩ := Option.ne_none_iff_exists'.1 hx
      obtain ⟨j, n, hj, hsame, rfl⟩ := exists_worker (groupOf_lt hin) hg
      have hjf : j < s.procs.forked := hopen.forked.symm ▸ hj
      rw [← hsame] at hg
      cases hjphase : (s.procs.workers j).phase with
      | start => exact goes_of_start hjf hjphase
      | polling => exact goes_of_polling hopen hjf hjphase
      | running =>
        have hs : s.step u (.loop j n) = some
            { procs := s.looped u j, groups := Function.update s.groups (u.groupOf j) g } := by
          rw [System.step, if_pos ⟨hjf, hjphase⟩, hg]
          rfl
        exact ⟨.loop j n, _, trivial, hs⟩
      | zombie | reaped =>
        have hret := (reach_tied hr).returned j hjf (by rw [hjphase]; rfl)
        rw [no_loop_of_returned hret] at hg
        cases hg

/-- Before `main` exits somebody can go on. -/
theorem goes_on (hw : u.options.workers < 2 ^ 32) (hlt : u.fds * u.params.loops.toNat < 2 ^ 32)
    (hr : Reach (System.step u) SystemNoFault System.start s)
    (hl : s.procs.point.isExited = false) : s.Goes u := by
  have hprocs := reach_procs hr
  obtain ⟨ret, procs, hC, hs⟩ | ⟨k, hk, hx⟩ :=
    main_goes hw (reach_inv hprocs) (reach_gate hprocs) (reach_faultless hprocs)
      (reach_tabKept hprocs) hl
  · exact ⟨.proc (.main ret), { s with procs }, hC, congrArg (Option.map _) hs⟩
  · obtain hx | ⟨hopen, hzombie, hreaped⟩ := hx
    · exact goes_of_start hk hx
    · refine goes_of_unfinished hlt hr hopen hk ?_
      cases hphase : (s.procs.workers k).phase with
      | zombie => exact absurd hphase hzombie
      | reaped => exact absurd hphase hreaped
      | start | polling | running => rfl

/-! ## The theorem -/

/-- `main` has exited with `0`, all workers have been waited for, and through the pipe of every
receiver went all that is sent to it. -/
structure System.Done (u : Setup) (s : System) : Prop where
  status : s.procs.point = .exited 0
  forked : s.procs.forked = u.options.workers
  reaped : ∀ k < s.procs.forked, (s.procs.workers k).phase = .reaped
  received : ∀ i < u.options.numGroups.toNat, ∀ r < u.fds,
    (s.groups i).written r = u.params.total ∧ (s.groups i).consumed r = u.params.total

/-- Hackbench completes when nothing fails: its runs are of bounded length and go on until `main`
exits, and then all is done. Nothing is sent before the start time is taken. -/
structure Completes (u : Setup) : Prop where
  bounded : ∃ bound, ∀ es s, exec (System.step u) SystemNoFault System.start es = some s →
    es.length ≤ bound
  goesOn : ∀ s, Reach (System.step u) SystemNoFault System.start s →
    s.procs.point.isExited = false → s.Goes u
  done : ∀ s, Reach (System.step u) SystemNoFault System.start s →
    s.procs.point.isExited = true → s.Done u
  timed : ∀ s, Reach (System.step u) SystemNoFault System.start s →
    s.procs.timerStarted = false → ∀ i r, (s.groups i).written r = 0

/-- What holds when `main` exits: no number of workers that wraps gets there, and all receivers
have left their loops. -/
theorem reach_exited (hr : Reach (System.step u) SystemNoFault System.start s)
    (hl : s.procs.point.isExited = true) : u.options.workers < 2 ^ 32 ∧
      s.procs.point = .exited 0 ∧ s.procs.forked = u.options.workers ∧
        (∀ k < s.procs.forked, (s.procs.workers k).phase = .reaped) ∧
          ∀ i < u.options.numGroups.toNat, ∀ r < u.fds, (s.groups i).receivers r = .left := by
  have hprocs := reach_procs hr
  have hgate := reach_gate hprocs
  have hfaultless := reach_faultless hprocs
  have hstatus := hfaultless.at_point
  have hwaited := hfaultless.waited
  cases hp : s.procs.point <;> rw [hp] at hl hgate hstatus hwaited <;> cases hl
  case exited status =>
    have hopen : s.procs.Open u.options := hgate
    obtain rfl : status = 0 := hstatus
    have hreaped := State.all_reaped_of_le hwaited
    refine ⟨hfaultless.fits_of_open hopen, rfl, hopen.forked, hreaped, fun i hi r hr' => ?_⟩
    have hle : (i + 1) * (2 * u.fds) ≤ u.options.numGroups.toNat * (2 * u.fds) :=
      Nat.mul_le_mul_right _ hi
    rw [Nat.succ_mul, ← u.workers_eq, ← hopen.forked] at hle
    have hplace : r < 2 * u.fds := by omega
    have hk : i * (2 * u.fds) + r < s.procs.forked := by omega
    have hret := (reach_tied hr).returned _ hk (by rw [hreaped _ hk]; rfl)
    rw [System.Returned, Setup.groupOf, Setup.placeOf, Nat.mul_add_mod', Nat.mod_eq_of_lt hplace,
      Nat.mul_comm i, Nat.mul_add_div (Nat.zero_lt_of_lt hplace), Nat.div_eq_of_lt hplace,
      Nat.add_zero, Packets.Group.Returned, if_pos hr'] at hret
    exact hret

/-- Nothing is sent before the start time is taken. -/
theorem unwritten_of_timer (hr : Reach (System.step u) SystemNoFault System.start s)
    (htimer : s.procs.timerStarted = false) : s.procs.dataWritten = false := by
  obtain ⟨n, hclosed⟩ | hopen := (reach_gate (reach_procs hr)).cases
  · exact hclosed.data
  · rw [hopen.timer] at htimer
    cases htimer

/-- Hackbench completes exactly when the number of its workers and the number of packets of a
receiver fit 32 bits. -/
theorem completes_iff (u : Setup) :
    Completes u ↔ u.options.workers < 2 ^ 32 ∧ u.fds * u.params.loops.toNat < 2 ^ 32 := by
  constructor
  · intro h
    obtain ⟨bound, hbound⟩ := h.bounded
    obtain ⟨s, hr, hl⟩ : ∃ s, Reach (System.step u) SystemNoFault System.start s ∧
        s.procs.point.isExited = true :=
      exists_final bound hbound fun s hr hl => h.goesOn s hr (Bool.eq_false_iff.2 hl)
    obtain ⟨hw, -, -, -, hleft⟩ := reach_exited hr hl
    have hgroups : 0 < u.options.numGroups.toNat :=
      UInt32.le_iff_toNat_le.1 u.options.one_le_numGroups
    have hcount := Packets.consumed_of_left (Packets.reach_inv (reach_group hr 0))
      u.params.numFds_pos (hleft 0 hgroups 0 (numFds_pos u.options))
    rw [Packets.numPackets_hackbench, u.fds_eq] at hcount
    exact ⟨hw, hcount.1⟩
  · rintro ⟨hw, hlt⟩
    have hcons : Packets.Conserves .hackbench u.params :=
      Packets.conserves_of_lt (u.fds_eq.symm ▸ hlt)
    refine ⟨⟨_, fun es s h => System.length_le es h⟩, fun s hr hl => goes_on hw hlt hr hl,
      fun s hr hl => ?_,
      fun s hr htimer => (reach_tied hr).unwritten (unwritten_of_timer hr htimer)⟩
    obtain ⟨-, hstatus, hforked, hreaped, hleft⟩ := reach_exited hr hl
    refine ⟨hstatus, hforked, hreaped, fun i hi r hr' => ?_⟩
    obtain ⟨hconsumed, hwritten, -⟩ := hcons.exact _ (reach_group hr i) r
      (u.fds_eq.symm ▸ hr') (hleft i hi r hr')
    exact ⟨hwritten, hconsumed⟩

end

end Hackbench
