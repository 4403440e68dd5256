import Mathlib.Data.List.Pairwise
import SchedulerComparison.Lib.Transition
import SchedulerComparison.TimeTracker.Decoding

/-!
# The loop of the trackers

`main` of `sched_tracker.cpp` and of `time_tracker.cpp`, which differ in their `retrieve_data`: from
the opening of the output file on, with the readings of the steady clock, in nanoseconds, and the
sleep between two cycles. Time passes at any moment, and how long `retrieve_data` takes is not
bounded. The stream of the file is flushed whenever its buffer is full, and when `main` returns.

`tracks` says for every run what is in the file, if it could be opened, and when it was measured:
what `retrieve_data` writes in each cycle, one after the other, up to the last flush while the
tracker runs and all of it when it has exited; the cycles start 10 ms apart, but for a nanosecond
that the conversion of the `long double` duration can lose; none starts when `max_duration` is over;
and the loop comes to its end.
-/

open Transition

namespace TimeTracker

/-! ## The output file -/

/-- A `std::ofstream`: the text of the file, if it could be opened, and what was inserted and has
not come to the file. No write fails. -/
structure OFStream where
  file : Option (List Char)
  buffer : List Char
  deriving DecidableEq

namespace OFStream

/-- `operator<<`, which inserts nothing when the file is not open. -/
def insert (out : OFStream) (text : List Char) : OFStream :=
  if out.file.isSome then { out with buffer := out.buffer ++ text } else out

/-- So many characters come to the file. -/
def flush (out : OFStream) (chars : Nat) : OFStream :=
  ⟨out.file.map (· ++ out.buffer.take chars), out.buffer.drop chars⟩

/-- The destructor. -/
def close (out : OFStream) : OFStream := out.flush out.buffer.length

/-- Everything that was inserted, if the file could be opened. -/
def text (out : OFStream) : Option (List Char) := out.file.map (· ++ out.buffer)

@[simp] theorem text_insert (out : OFStream) (text : List Char) :
    (out.insert text).text = out.text.map (· ++ text) := by
  rcases out with ⟨_ | file, buffer⟩
  · rfl
  · exact congrArg some (List.append_assoc file buffer text).symm

@[simp] theorem text_flush (out : OFStream) (chars : Nat) :
    (out.flush chars).text = out.text := by
  rcases out with ⟨_ | file, buffer⟩
  · rfl
  · show some (file ++ buffer.take chars ++ buffer.drop chars) = some (file ++ buffer)
    rw [List.append_assoc, List.take_append_drop]

@[simp] theorem text_close (out : OFStream) : out.close.text = out.text := out.text_flush _

@[simp] theorem buffer_close (out : OFStream) : out.close.buffer = [] :=
  List.drop_length

/-- What was inserted last is behind what was inserted before. -/
theorem exists_of_text_insert {out : OFStream} {text all : List Char}
    (h : (out.insert text).text = some all) :
    ∃ before, out.text = some before ∧ before ++ text = all :=
  Option.map_eq_some_iff.1 ((out.text_insert text).symm.trans h)

/-- The file begins what was inserted. -/
theorem exists_text {out : OFStream} {file : List Char} (h : out.file = some file) :
    out.text = some (file ++ out.buffer) := by
  rw [text, h, Option.map_some]

end OFStream

/-! ## The program -/

/-- A cycle of the loop: the reading of the clock at its start, and what `retrieve_data` saw. -/
structure Cycle (α : Type) where
  start : Nat
  seen : α
  deriving DecidableEq

/-- The control points of `main`. Behind `brokenOff` there is nothing: `retrieve_data` has thrown,
as the iteration over `/proc` can, or the process was killed in it. -/
inductive TrackerPoint where
  | openFile
  | setAffinity
  | setScheduler
  | takeProgStart
  | head (progStart : Nat)
  | retrieve (progStart cycleStart : Nat)
  | cycleEnd (progStart cycleStart : Nat)
  | sleep (progStart wake : Nat)
  | exited (status : Int)
  | brokenOff
  deriving DecidableEq

/-- The state of `main`: the clock, and the output file. `cycles` is not a variable of the source:
the cycles in which `retrieve_data` came to its end. -/
structure Tracker (α : Type) where
  point : TrackerPoint
  clock : Nat
  outputFile : OFStream
  cycles : List (Cycle α)
  deriving DecidableEq

/-- What can happen next: time passes, some of the buffer comes to the file, `main` makes its next
call, or `retrieve_data` runs, to its end or until it has inserted so many characters. -/
inductive TrackerEvent (α : Type) where
  | tick (nanosec : Nat)
  | flush (chars : Nat)
  | call (ret : Int)
  | retrieve (seen : α)
  | breakOff (seen : α) (chars : Nat)

/-- The `max_duration` of a cycle, 10 ms (`sched_tracker.cpp:186`). -/
def cycleNanosec : Nat := 10000000

namespace Tracker

variable {α : Type}

/-- `main` continues at a control point. -/
def goto (s : Tracker α) (l : TrackerPoint) : Tracker α := { s with point := l }

/-- The next call of `main` (`sched_tracker.cpp:158-194`). The file is emptied when it can be
opened, and nobody looks whether it was. The call at the end of a cycle is `sleep_for`, which
returns when at least `ret` nanoseconds have passed: what is left of the 10 ms, or one less, as the
difference is converted from a `long double`. -/
def call (maxDuration : Int) (s : Tracker α) (ret : Int) : Option (Tracker α) :=
  match s.point with
  | .openFile =>
    some { s with point := .setAffinity, outputFile := ⟨if ret < 0 then none else some [], []⟩ }
  | .setAffinity => some (s.goto (if ret < 0 then .exited (-1) else .setScheduler))
  | .setScheduler => some (s.goto (if ret < 0 then .exited (-1) else .takeProgStart))
  | .takeProgStart => some (s.goto (.head s.clock))
  | .head p =>
    if maxDuration * 1000000 ≤ (s.clock : Int) - p then
      some { s with point := .exited 0, outputFile := s.outputFile.close }
    else some (s.goto (.retrieve p s.clock))
  | .retrieve _ _ => none
  | .cycleEnd p c =>
    if cycleNanosec < s.clock - c then some (s.goto (.head p))
    else if 0 ≤ ret ∧ (ret.toNat = cycleNanosec - (s.clock - c) ∨
        ret.toNat + 1 = cycleNanosec - (s.clock - c)) then
      some (s.goto (.sleep p (s.clock + ret.toNat)))
    else none
  | .sleep p wake => if wake ≤ s.clock then some (s.goto (.head p)) else none
  | .exited _ | .brokenOff => none

/-- One step of a tracker, of which `retrieveData` says what a cycle writes. -/
def step (retrieveData : α → List Char) (maxDuration : Int) (s : Tracker α) :
    TrackerEvent α → Option (Tracker α)
  | .tick nanosec => some { s with clock := s.clock + nanosec }
  | .flush chars => some { s with outputFile := s.outputFile.flush chars }
  | .call ret => s.call maxDuration ret
  | .retrieve seen =>
    match s.point with
    | .retrieve p c =>
      some { s with
        point := .cycleEnd p c
        outputFile := s.outputFile.insert (retrieveData seen)
        cycles := s.cycles ++ [⟨c, seen⟩] }
    | _ => none
  | .breakOff seen chars =>
    match s.point with
    | .retrieve _ _ =>
      if chars < (retrieveData seen).length then
        some { s with
          point := .brokenOff
          outputFile := s.outputFile.insert ((retrieveData seen).take chars) }
      else none
    | _ => none

/-- `main` when `parse_args` has returned. -/
def start : Tracker α := ⟨.openFile, 0, ⟨none, []⟩, []⟩

end Tracker

/-! ## The cycles of a run -/

section
variable {α : Type} {retrieveData : α → List Char} {maxDuration : Int} {s s' : Tracker α}
  {e : TrackerEvent α} {p limit limit' : Nat}

/-- The least time from the start of a cycle to the start of the next one. -/
def gap : Nat := cycleNanosec - 1

/-- The cycles so far, of a loop that was entered at `p`, are over at `limit`. -/
structure Tracker.Over (maxDuration : Int) (s : Tracker α) (p limit : Nat) : Prop where
  spaced : s.cycles.Pairwise fun a b => a.start + gap ≤ b.start
  within : ∀ c ∈ s.cycles, p ≤ c.start ∧ (c.start : Int) - p < maxDuration * 1000000
  ended : ∀ c ∈ s.cycles, c.start + gap ≤ limit
  count : p + s.cycles.length * gap ≤ limit

/-- The cycles that are over stay so. -/
theorem Tracker.Over.mono (h : s.Over maxDuration p limit) (hle : limit ≤ limit') :
    s.Over maxDuration p limit' :=
  ⟨h.spaced, h.within, fun c hc => (h.ended c hc).trans hle, h.count.trans hle⟩

/-- A cycle that starts when the others are over. -/
theorem Tracker.Over.cycle {seen : α} {outputFile : OFStream} {l : TrackerPoint}
    (h : s.Over maxDuration p limit) (hin : (limit : Int) - p < maxDuration * 1000000) :
    Tracker.Over maxDuration { s with
      point := l, outputFile, cycles := s.cycles ++ [⟨limit, seen⟩] } p (limit + gap) := by
  have hp : p ≤ limit := (Nat.le_add_right _ _).trans h.count
  refine ⟨?_, ?_, ?_, ?_⟩
  · rw [List.pairwise_append]
    refine ⟨h.spaced, List.pairwise_singleton _ _, fun a ha b hb => ?_⟩
    obtain rfl := List.mem_singleton.1 hb
    exact h.ended a ha
  · intro c hc
    rcases List.mem_append.1 hc with hc | hc
    · exact h.within c hc
    · obtain rfl := List.mem_singleton.1 hc
      exact ⟨hp, hin⟩
  · intro c hc
    rcases List.mem_append.1 hc with hc | hc
    · exact (h.ended c hc).trans (Nat.le_add_right _ _)
    · obtain rfl := List.mem_singleton.1 hc
      exact Nat.le_refl _
  · have hcount := h.count
    rw [List.length_append, List.length_singleton, Nat.succ_mul]
    omega

/-- What holds at a control point. -/
def Tracker.At (maxDuration : Int) (s : Tracker α) : TrackerPoint → Prop
  | .openFile | .setAffinity | .setScheduler | .takeProgStart => s.cycles = []
  | .head p => s.Over maxDuration p s.clock
  | .retrieve p c => s.Over maxDuration p c ∧ c ≤ s.clock ∧
      (c : Int) - p < maxDuration * 1000000
  | .cycleEnd p c => s.Over maxDuration p (c + gap) ∧ c ≤ s.clock
  | .sleep p wake => s.Over maxDuration p wake
  | .exited status => status = -1 ∧ s.cycles = [] ∨
      status = 0 ∧ ∃ p limit, s.Over maxDuration p limit ∧ limit ≤ s.clock ∧
        maxDuration * 1000000 ≤ (limit : Int) - p
  | .brokenOff => ∃ p limit, s.Over maxDuration p limit

/-- Without cycles, none is left to end. -/
theorem Tracker.over_of_nil (h : s.cycles = []) (p : Nat) : s.Over maxDuration p p := by
  have hnone : ∀ c : Cycle α, c ∉ s.cycles := by
    rw [h]
    exact fun c => List.not_mem_nil
  refine ⟨?_, fun c hc => absurd hc (hnone c), fun c hc => absurd hc (hnone c), ?_⟩
  · rw [h]
    exact List.Pairwise.nil
  · rw [h, List.length_nil, Nat.zero_mul]
    exact Nat.le_refl p

/-- What holds at a control point does not depend on what is in the file, and time can pass. -/
theorem Tracker.At.later {l : TrackerPoint} (h : s.At maxDuration l)
    (hcycles : s'.cycles = s.cycles) (hclock : s.clock ≤ s'.clock) : s'.At maxDuration l := by
  have hover : ∀ {p limit}, s.Over maxDuration p limit → s'.Over maxDuration p limit := by
    intro p limit ho
    exact ⟨hcycles ▸ ho.spaced, hcycles ▸ ho.within, hcycles ▸ ho.ended, hcycles ▸ ho.count⟩
  cases l with
  | openFile | setAffinity | setScheduler | takeProgStart => exact hcycles.trans h
  | head p => exact (hover h).mono hclock
  | retrieve p c => exact ⟨hover h.1, h.2.1.trans hclock, h.2.2⟩
  | cycleEnd p c => exact ⟨hover h.1, h.2.trans hclock⟩
  | sleep p wake => exact hover h
  | exited status =>
    obtain ⟨hst, hnil⟩ | ⟨hst, p, limit, ho, hle, hmax⟩ := h
    · exact .inl ⟨hst, hcycles.trans hnil⟩
    · exact .inr ⟨hst, p, limit, hover ho, hle.trans hclock, hmax⟩
  | brokenOff =>
    obtain ⟨p, limit, ho⟩ := h
    exact ⟨p, limit, hover ho⟩

/-- `main` goes on to another control point. -/
theorem Tracker.At.goto {l : TrackerPoint} (h : s.At maxDuration l) :
    (s.goto l).At maxDuration (s.goto l).point := h.later rfl (Nat.le_refl _)

/-- The next call of `main`. The first one opens the file, the last one closes it, and no call
inserts anything. -/
theorem call_at {ret : Int} (h : s.At maxDuration s.point)
    (hs : s.call maxDuration ret = some s') :
    s'.At maxDuration s'.point ∧ s'.cycles = s.cycles ∧
      (s.point = .openFile ∧ (s'.outputFile.text = none ∨ s'.outputFile.text = some []) ∨
        s'.outputFile.text = s.outputFile.text) ∧
      (s'.point = .exited 0 → s'.outputFile.buffer = []) := by
  have hgoto : ∀ {l : TrackerPoint}, s.At maxDuration l → l ≠ .exited 0 →
      (s.goto l).At maxDuration (s.goto l).point ∧ (s.goto l).cycles = s.cycles ∧
        (s.point = .openFile ∧ ((s.goto l).outputFile.text = none ∨
            (s.goto l).outputFile.text = some []) ∨
          (s.goto l).outputFile.text = s.outputFile.text) ∧
        ((s.goto l).point = .exited 0 → (s.goto l).outputFile.buffer = []) :=
    fun hl hne => ⟨hl.goto, rfl, .inr rfl, fun hp => absurd hp hne⟩
  cases hp : s.point <;> rw [hp] at h hgoto <;> simp only [Tracker.call, hp] at hs
  case openFile =>
    cases hs
    refine ⟨h, rfl, .inl ⟨rfl, ?_⟩, fun hp => by cases hp⟩
    by_cases hret : ret < 0
    · exact .inl (by rw [if_pos hret]; rfl)
    · exact .inr (by rw [if_neg hret]; rfl)
  case setAffinity | setScheduler =>
    cases hs
    split
    · exact hgoto (.inl ⟨rfl, h⟩) (by decide)
    · exact hgoto h (by rintro ⟨⟩)
  case takeProgStart =>
    cases hs
    exact hgoto (Tracker.over_of_nil h s.clock) (by rintro ⟨⟩)
  case head p =>
    split at hs <;> cases hs
    · next hmax =>
      have hended : s.At maxDuration (.exited 0) := .inr ⟨rfl, p, s.clock, h, Nat.le_refl _, hmax⟩
      exact ⟨hended.later rfl (Nat.le_refl _), rfl, .inr s.outputFile.text_close,
        fun _ => s.outputFile.buffer_close⟩
    · next hmax => exact hgoto ⟨h, Nat.le_refl _, Int.not_le.1 hmax⟩ (by rintro ⟨⟩)
  case retrieve | exited | brokenOff => cases hs
  case cycleEnd p c =>
    obtain ⟨ho, hc⟩ := h
    have hgap : gap + 1 = cycleNanosec := rfl
    split at hs
    · next hlong =>
      cases hs
      exact hgoto (ho.mono (by omega)) (by rintro ⟨⟩)
    · split at hs <;> cases hs
      next hret => exact hgoto (ho.mono (by omega)) (by rintro ⟨⟩)
  case sleep p wake =>
    split at hs <;> cases hs
    next hwake => exact hgoto (Tracker.Over.mono h hwake) (by rintro ⟨⟩)

/-! ## What is in the file -/

/-- What `retrieve_data` has written in the cycles. -/
def Tracker.sampled (retrieveData : α → List Char) (s : Tracker α) : List Char :=
  s.cycles.flatMap fun c => retrieveData c.seen

/-- What is written of a cycle that was broken off; nothing, when none was. -/
def Tracker.Part (retrieveData : α → List Char) (s : Tracker α) (part : List Char) : Prop :=
  part = [] ∨ s.point = .brokenOff ∧
    ∃ seen, part <+: retrieveData seen ∧ part.length < (retrieveData seen).length

/-- What was inserted, if the file could be opened, is what the cycles have written, and the part of
one that was broken off. -/
structure Tracker.Wrote (retrieveData : α → List Char) (s : Tracker α) : Prop where
  text : ∃ part, s.Part retrieveData part ∧
    ∀ text, s.outputFile.text = some text → text = s.sampled retrieveData ++ part
  closed : s.point = .exited 0 → s.outputFile.buffer = []

/-- Where no cycle was broken off, what was inserted is what the cycles have written. -/
theorem Tracker.Wrote.eq_sampled {text : List Char} (h : s.Wrote retrieveData)
    (hp : s.point ≠ .brokenOff) (htext : s.outputFile.text = some text) :
    text = s.sampled retrieveData := by
  obtain ⟨part, rfl | ⟨hbroken, -⟩, heq⟩ := h.text
  · rw [heq text htext, List.append_nil]
  · exact absurd hbroken hp

/-- No cycle is broken off where what was inserted is what the cycles have written. -/
theorem Tracker.Wrote.of_eq
    (htext : ∀ text, s.outputFile.text = some text → text = s.sampled retrieveData)
    (hclosed : s.point = .exited 0 → s.outputFile.buffer = []) : s.Wrote retrieveData := by
  refine ⟨⟨[], .inl rfl, fun text h => ?_⟩, hclosed⟩
  rw [List.append_nil]
  exact htext text h

/-- The next call of `main` keeps it. -/
theorem call_wrote {ret : Int} (h : s.At maxDuration s.point) (hw : s.Wrote retrieveData)
    (hs : s.call maxDuration ret = some s') : s'.Wrote retrieveData := by
  obtain ⟨-, hcycles, htext, hclosed⟩ := call_at h hs
  have hsampled : s'.sampled retrieveData = s.sampled retrieveData := by
    rw [Tracker.sampled, hcycles, Tracker.sampled]
  have hp : s.point ≠ .brokenOff := by
    intro hp
    rw [Tracker.call, hp] at hs
    cases hs
  refine .of_eq (fun text heq => ?_) hclosed
  rw [hsampled]
  obtain ⟨hopen, hnone | hempty⟩ | hsame := htext
  · rw [hnone] at heq
    cases heq
  · rw [hopen] at h
    rw [hempty] at heq
    cases heq
    rw [Tracker.sampled, show s.cycles = [] from h]
    rfl
  · exact hw.eq_sampled hp (hsame.symm.trans heq)

/-- Every step keeps what holds. -/
theorem tracker_step (h : s.At maxDuration s.point) (hw : s.Wrote retrieveData)
    (hs : s.step retrieveData maxDuration e = some s') :
    s'.At maxDuration s'.point ∧ s'.Wrote retrieveData := by
  cases e with
  | tick nanosec =>
    cases hs
    exact ⟨h.later rfl (Nat.le_add_right _ _), hw.text, hw.closed⟩
  | flush chars =>
    cases hs
    refine ⟨h.later rfl (Nat.le_refl _), ?_, fun hp => ?_⟩
    · obtain ⟨part, hpart, heq⟩ := hw.text
      exact ⟨part, hpart, fun text htext => heq text (s.outputFile.text_flush chars ▸ htext)⟩
    · show s.outputFile.buffer.drop chars = []
      rw [hw.closed hp, List.drop_nil]
  | call ret => exact ⟨(call_at h hs).1, call_wrote h hw hs⟩
  | retrieve seen =>
    rw [Tracker.step] at hs
    split at hs
    · next p c hp =>
      cases hs
      rw [hp] at h
      obtain ⟨ho, hc, hin⟩ := h
      refine ⟨⟨ho.cycle hin, hc⟩, .of_eq (fun text htext => ?_) fun hp => by cases hp⟩
      obtain ⟨before, hbefore, rfl⟩ := OFStream.exists_of_text_insert htext
      rw [hw.eq_sampled (by rw [hp]; rintro ⟨⟩) hbefore, Tracker.sampled, Tracker.sampled,
        List.flatMap_append, List.flatMap_singleton]
    · cases hs
  | breakOff seen chars =>
    rw [Tracker.step] at hs
    split at hs
    · next p c hp =>
      split at hs <;> cases hs
      next hlt =>
        rw [hp] at h
        have hpart : ((retrieveData seen).take chars).length < (retrieveData seen).length := by
          rw [List.length_take]
          omega
        refine ⟨⟨p, c, h.1.spaced, h.1.within, h.1.ended, h.1.count⟩,
          ⟨_, .inr ⟨rfl, seen, List.take_prefix _ _, hpart⟩, fun text htext => ?_⟩,
          fun hp => by cases hp⟩
        obtain ⟨before, hbefore, rfl⟩ := OFStream.exists_of_text_insert htext
        rw [hw.eq_sampled (by rw [hp]; rintro ⟨⟩) hbefore]
        rfl
    · cases hs

theorem reach_tracker {C : Tracker α → TrackerEvent α → Prop}
    (h : Reach (Tracker.step retrieveData maxDuration) C Tracker.start s) :
    s.At maxDuration s.point ∧ s.Wrote retrieveData :=
  h.invariant (I := fun s => s.At maxDuration s.point ∧ s.Wrote retrieveData)
    ⟨rfl, .of_eq (by rintro text ⟨⟩) fun hp => by cases hp⟩
    fun _ _ _ hi _ hs => tracker_step hi.1 hi.2 hs

/-! ## The loop ends -/

/-- The number of cycles that `max_duration` has room for. -/
def maxCycles (maxDuration : Int) : Nat := (maxDuration * 1000000).toNat / gap + 1

/-- The calls and the snapshots that are left at a control point, at most. -/
def TrackerPoint.rest (maxDuration : Int) (cycles : Nat) : TrackerPoint → Nat
  | .openFile => 4 * maxCycles maxDuration + 6
  | .setAffinity => 4 * maxCycles maxDuration + 5
  | .setScheduler => 4 * maxCycles maxDuration + 4
  | .takeProgStart => 4 * maxCycles maxDuration + 3
  | .head _ => 4 * (maxCycles maxDuration - cycles) + 2
  | .retrieve _ _ => 4 * (maxCycles maxDuration - cycles) + 1
  | .cycleEnd _ _ => 4 * (maxCycles maxDuration - cycles) + 4
  | .sleep _ _ => 4 * (maxCycles maxDuration - cycles) + 3
  | .exited _ | .brokenOff => 0

/-- The calls and the snapshots that are left, at most. -/
def Tracker.rest (maxDuration : Int) (s : Tracker α) : Nat :=
  s.point.rest maxDuration s.cycles.length

/-- A call of `main`, or a snapshot. -/
def TrackerEvent.isOwn : TrackerEvent α → Bool
  | .tick _ | .flush _ => false
  | .call _ | .retrieve _ | .breakOff _ _ => true

/-- Where a cycle can start, not all are over. -/
theorem cycles_lt {c : Nat} (h : s.Over maxDuration p c)
    (hin : (c : Int) - p < maxDuration * 1000000) : s.cycles.length < maxCycles maxDuration := by
  have hcount := h.count
  have hle : s.cycles.length * gap ≤ (maxDuration * 1000000).toNat := by omega
  exact Nat.lt_succ_of_le ((Nat.le_div_iff_mul_le (by decide)).2 hle)

/-- Every call of `main` leaves less to do. -/
theorem call_rest {ret : Int} (h : s.At maxDuration s.point)
    (hs : s.call maxDuration ret = some s') : s'.rest maxDuration < s.rest maxDuration := by
  have hgoto : ∀ {l : TrackerPoint}, l.rest maxDuration s.cycles.length < s.rest maxDuration →
      (s.goto l).rest maxDuration < s.rest maxDuration := fun hlt => hlt
  have hnil : s.cycles = [] → s.cycles.length = 0 := fun h => by rw [h, List.length_nil]
  unfold Tracker.rest at hgoto ⊢
  cases hp : s.point <;> rw [hp] at h hgoto <;> simp only [Tracker.call, hp] at hs
  case openFile =>
    cases hs
    exact Nat.lt_succ_self _
  case setAffinity | setScheduler =>
    cases hs
    refine hgoto ?_
    split
    · exact Nat.succ_pos _
    · exact Nat.lt_succ_self _
  case takeProgStart =>
    have hlen := hnil h
    cases hs
    refine hgoto ?_
    simp only [TrackerPoint.rest]
    omega
  case head p =>
    split at hs <;> cases hs
    · exact Nat.succ_pos _
    · exact hgoto (Nat.lt_succ_self _)
  case retrieve | exited | brokenOff => cases hs
  case cycleEnd p c =>
    split at hs
    · cases hs
      refine hgoto ?_
      simp only [TrackerPoint.rest]
      omega
    · split at hs <;> cases hs
      exact hgoto (Nat.lt_succ_self _)
  case sleep p wake =>
    split at hs <;> cases hs
    exact hgoto (Nat.lt_succ_self _)

/-- Every call of `main` and every snapshot leaves less to do. -/
theorem tracker_rest (h : s.At maxDuration s.point)
    (hs : s.step retrieveData maxDuration e = some s') :
    s'.rest maxDuration + (if e.isOwn then 1 else 0) ≤ s.rest maxDuration := by
  cases e with
  | tick | flush =>
    cases hs
    exact Nat.le_refl _
  | call ret => exact call_rest h hs
  | retrieve seen =>
    rw [Tracker.step] at hs
    split at hs
    · next p c hp =>
      rw [hp] at h
      have hlt := cycles_lt h.1 h.2.2
      cases hs
      show TrackerPoint.rest maxDuration (s.cycles ++ [Cycle.mk c seen]).length (.cycleEnd p c) +
        1 ≤ s.point.rest maxDuration s.cycles.length
      rw [hp, List.length_append, List.length_singleton]
      simp only [TrackerPoint.rest]
      omega
    · cases hs
  | breakOff seen chars =>
    rw [Tracker.step] at hs
    split at hs
    · next p c hp =>
      split at hs <;> cases hs
      show 0 + 1 ≤ s.point.rest maxDuration s.cycles.length
      rw [hp]
      exact Nat.succ_pos _
    · cases hs

/-- The process has ended. -/
def TrackerPoint.hasEnded : TrackerPoint → Bool
  | .exited _ | .brokenOff => true
  | _ => false

/-- Before it has ended a tracker can go on, if only time passes. -/
theorem tracker_goes [Inhabited α] (retrieveData : α → List Char) (maxDuration : Int)
    (hl : s.point.hasEnded = false) : ∃ nanosec s₁ e s₂,
      s.step retrieveData maxDuration (.tick nanosec) = some s₁ ∧
        s₁.step retrieveData maxDuration e = some s₂ ∧ e.isOwn = true := by
  have hgo : ∀ (nanosec : Nat) (e : TrackerEvent α), e.isOwn = true →
      (Tracker.step retrieveData maxDuration { s with clock := s.clock + nanosec } e).isSome →
        ∃ nanosec s₁ e s₂, s.step retrieveData maxDuration (.tick nanosec) = some s₁ ∧
          s₁.step retrieveData maxDuration e = some s₂ ∧ e.isOwn = true := by
    intro nanosec e he h
    obtain ⟨s₂, hs⟩ := Option.isSome_iff_exists.1 h
    exact ⟨nanosec, _, e, s₂, rfl, hs, he⟩
  cases hp : s.point with
  | openFile | setAffinity | setScheduler | takeProgStart =>
    refine hgo 0 (.call 0) rfl ?_
    simp only [Tracker.step, Tracker.call, hp, Option.isSome_some]
  | head p =>
    refine hgo 0 (.call 0) rfl ?_
    simp only [Tracker.step, Tracker.call, hp]
    split <;> rfl
  | retrieve p c =>
    refine hgo 0 (.retrieve default) rfl ?_
    simp only [Tracker.step, hp, Option.isSome_some]
  | cycleEnd p c =>
    by_cases hlong : cycleNanosec < s.clock - c
    · refine hgo 0 (.call 0) rfl ?_
      simp only [Tracker.step, Tracker.call, hp, Nat.add_zero, if_pos hlong, Option.isSome_some]
    · refine hgo 0 (.call ((cycleNanosec - (s.clock - c) : Nat) : Int)) rfl ?_
      simp [Tracker.step, Tracker.call, hp, hlong]
  | sleep p wake =>
    have hwake : wake ≤ s.clock + wake := Nat.le_add_left _ _
    refine hgo wake (.call 0) rfl ?_
    simp only [Tracker.step, Tracker.call, hp, if_pos hwake, Option.isSome_some]
  | exited | brokenOff =>
    rw [hp] at hl
    cases hl

/-! ## The theorem -/

/-- Cycles that are spaced reach at least as far as their number says. -/
theorem le_start_getLast {cs : List (Cycle α)} (hs : cs.Pairwise fun a b => a.start + gap ≤ b.start)
    (hp : ∀ c ∈ cs, p ≤ c.start) (hne : cs ≠ []) :
    p + (cs.length - 1) * gap ≤ (cs.getLast hne).start := by
  induction cs generalizing p with
  | nil => exact absurd rfl hne
  | cons c cs ih =>
    have hc := hp c List.mem_cons_self
    obtain ⟨hhead, htail⟩ := List.pairwise_cons.1 hs
    cases cs with
    | nil => exact (Nat.le_of_eq (by simp)).trans hc
    | cons d ds =>
      have hlast := ih htail hhead (List.cons_ne_nil d ds)
      rw [List.getLast_cons (List.cons_ne_nil d ds)]
      rw [List.length_cons, Nat.add_sub_cancel, List.length_cons, Nat.succ_mul]
      rw [List.length_cons, Nat.add_sub_cancel] at hlast
      omega

/-- What is in the file of a tracker, if it could be opened, and when it was measured. The file
begins what the cycles have written, and the part of a cycle that was broken off, and it is complete
when the tracker has exited. The cycles start in the `max_duration` milliseconds from some moment
on, and are as few as the gap between them allows. -/
structure Tracker.Sampled (retrieveData : α → List Char) (maxDuration : Int) (s : Tracker α) :
    Prop where
  begun : ∀ text, s.outputFile.file = some text →
    ∃ part, s.Part retrieveData part ∧ text <+: s.sampled retrieveData ++ part
  complete : ∀ status text, s.point = .exited status → s.outputFile.file = some text →
    text = s.sampled retrieveData
  spaced : s.cycles.Pairwise fun a b => a.start + gap ≤ b.start
  within : ∃ p, ∀ c ∈ s.cycles, p ≤ c.start ∧ (c.start : Int) - p < maxDuration * 1000000
  few : s.cycles = [] ∨ ((s.cycles.length - 1) * gap : Nat) < maxDuration * 1000000
  exited : s.point = .exited 0 → ∃ p, (∀ c ∈ s.cycles, p ≤ c.start) ∧
    maxDuration * 1000000 ≤ (s.clock : Int) - p

/-- What a tracker does: it samples, and it comes to its end. -/
structure Tracks (retrieveData : α → List Char) (maxDuration : Int) : Prop where
  sampled : ∀ s, Reach (Tracker.step retrieveData maxDuration) Free Tracker.start s →
    s.Sampled retrieveData maxDuration
  goesOn : ∀ s, Reach (Tracker.step retrieveData maxDuration) Free Tracker.start s →
    s.point.hasEnded = false → ∃ nanosec s₁ e s₂,
      s.step retrieveData maxDuration (.tick nanosec) = some s₁ ∧
        s₁.step retrieveData maxDuration e = some s₂ ∧ e.isOwn = true
  bounded : ∀ es s, exec (Tracker.step retrieveData maxDuration) Free Tracker.start es = some s →
    es.countP TrackerEvent.isOwn ≤ 4 * maxCycles maxDuration + 6

/-- At every control point the cycles so far are over at some time, or there are none. -/
theorem Tracker.At.exists_over {l : TrackerPoint} (h : s.At maxDuration l) :
    ∃ p limit, s.Over maxDuration p limit := by
  cases l with
  | openFile | setAffinity | setScheduler | takeProgStart => exact ⟨0, 0, Tracker.over_of_nil h 0⟩
  | head p => exact ⟨p, _, h⟩
  | retrieve p c | cycleEnd p c => exact ⟨p, _, h.1⟩
  | sleep p wake => exact ⟨p, _, h⟩
  | exited status =>
    obtain ⟨-, hnil⟩ | ⟨-, p, limit, ho, -⟩ := h
    · exact ⟨0, 0, Tracker.over_of_nil hnil 0⟩
    · exact ⟨p, limit, ho⟩
  | brokenOff => exact h

/-- When `main` has exited nothing is left in the buffer. -/
theorem exited_text {status : Int} {text : List Char} (h : s.At maxDuration s.point)
    (hw : s.Wrote retrieveData) (hp : s.point = .exited status)
    (htext : s.outputFile.file = some text) : text = s.sampled retrieveData := by
  have heq := hw.eq_sampled (by rw [hp]; rintro ⟨⟩) (OFStream.exists_text htext)
  rw [hp] at h
  obtain ⟨-, hnil⟩ | ⟨rfl, -⟩ := h
  · rw [Tracker.sampled, hnil, List.flatMap_nil] at heq ⊢
    exact (List.append_eq_nil_iff.1 heq).1
  · rwa [hw.closed hp, List.append_nil] at heq

/-- The trackers do so, for every `retrieve_data` and every `max_duration`. -/
theorem tracks [Inhabited α] (retrieveData : α → List Char) (maxDuration : Int) :
    Tracks retrieveData maxDuration := by
  refine ⟨fun s hr => ?_, fun s _ hl => tracker_goes retrieveData maxDuration hl,
    fun es s h => ?_⟩
  · obtain ⟨hat, hw⟩ := reach_tracker hr
    obtain ⟨p, limit, ho⟩ := hat.exists_over
    refine ⟨fun text htext => ?_, fun status text hp => exited_text hat hw hp, ho.spaced,
      ⟨p, ho.within⟩, ?_, fun hp => ?_⟩
    · obtain ⟨part, hpart, heq⟩ := hw.text
      exact ⟨part, hpart, heq _ (OFStream.exists_text htext) ▸ List.prefix_append _ _⟩
    · by_cases hne : s.cycles = []
      · exact .inl hne
      · have hlast := le_start_getLast ho.spaced (fun c hc => (ho.within c hc).1) hne
        have hin := (ho.within _ (List.getLast_mem hne)).2
        refine .inr ?_
        omega
    · rw [hp] at hat
      obtain ⟨hst, -⟩ | ⟨-, p, limit, ho, hle, hmax⟩ := hat
      · cases hst
      · exact ⟨p, fun c hc => (ho.within c hc).1, by omega⟩
  · exact exec_kind_le
      (I := fun s => Reach (Tracker.step retrieveData maxDuration) Free Tracker.start s)
      (Tracker.rest maxDuration) TrackerEvent.isOwn
      (fun s e s' hr hC hs => ⟨hr.tail hC hs, tracker_rest (reach_tracker hr).1 hs⟩) es .refl h

end

/-! ## `time_tracker.cpp` -/

/-- An entry of `/proc`: its name, and the content of the file `stat` in it. -/
structure StatEntry where
  filename : Line
  stat : Option (List Char)
  deriving DecidableEq

/-- `std::isdigit(filename[0])`, with the character taken to be still there, as in
`DirEntry.isProcess`. -/
def StatEntry.isProcess (entry : StatEntry) : Bool := entry.filename.head?.any Char.isDigit

/-- What a cycle of `time_tracker.cpp` sees: `/proc/uptime`, and the entries of `/proc`. -/
structure StatSeen where
  uptimeFile : Option (List Char)
  proc : List StatEntry
  deriving Inhabited, DecidableEq

/-- `std::getline` of the first line of a file. -/
def firstLineOf (file : Option (List Char)) : Line := ((IFStream.open file).getline []).2

/-- What `retrieve_data` of `time_tracker.cpp` writes before the line break. -/
def StatSeen.line (seen : StatSeen) : Line :=
  firstLineOf seen.uptimeFile ++
    (seen.proc.filter StatEntry.isProcess).flatMap fun entry => ',' :: firstLineOf entry.stat

/-- `retrieve_data` of `time_tracker.cpp:93`. -/
def StatSeen.retrieveData (seen : StatSeen) : List Char := seen.line ++ newline

/-- There is no line break in a line. -/
theorem newline_not_mem_firstLineOf (file : Option (List Char)) : '\n' ∉ firstLineOf file := by
  cases file with
  | none => exact List.not_mem_nil
  | some content =>
    have htake : '\n' ∉ content.takeWhile (· ≠ '\n') := fun hmem =>
      absurd (List.mem_takeWhile_imp hmem) (by simp)
    unfold firstLineOf IFStream.open IFStream.getline
    rw [if_pos rfl]
    dsimp only
    split
    · next hall =>
      -- the file is read up to its end
      have heq := List.takeWhile_append_dropWhile (p := (· ≠ '\n')) (l := content)
      rw [hall, List.append_nil] at heq
      rwa [heq] at htake
    · exact htake

theorem StatSeen.newline_not_mem (seen : StatSeen) : '\n' ∉ seen.line := by
  intro hmem
  rcases List.mem_append.1 hmem with hmem | hmem
  · exact newline_not_mem_firstLineOf _ hmem
  · obtain ⟨entry, -, hmem⟩ := List.mem_flatMap.1 hmem
    rcases List.mem_cons.1 hmem with hmem | hmem
    · cases hmem
    · exact newline_not_mem_firstLineOf _ hmem

end TimeTracker
