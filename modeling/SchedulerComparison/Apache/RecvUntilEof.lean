import SchedulerComparison.Apache.Handshake
import SchedulerComparison.Lib.Overlay
import SchedulerComparison.Lib.Sums

/-!
# Receiving the response

`recv_until_eof` (`http_client.cpp:56`) reads the response into a buffer of 256 bytes that is not
initialised, every read from the front of the buffer on, and prints the buffer with `%s`, which goes
on to the first zero byte. No read puts one there, and the counter is an `int`. `receives_exactly`
says for which responses this is safe: those of less than `2^31` bytes that bring a zero byte
themselves, at a position that no later read reaches.

The reads are those of the client's child: `exec_eof` shows that they are the bytes that the server
has sent, in their order, and that what is counted is their number.
-/

open Overlay Transition

namespace HttpClient

/-! ## The function -/

/-- What a read that is not at the end of the stream puts at the front of `recv_buf`. -/
structure Chunk where
  bytes : List UInt8
  nonempty : 1 ≤ bytes.length
  fits : bytes.length ≤ 256

/-- `recv_buf`, whose cells are `none` before they are written, and `total_bytes`. -/
structure Received where
  recvBuf : List (Option UInt8)
  totalBytes : Nat
  deriving DecidableEq

/-- The variables before the loop. -/
def Received.start : Received := { recvBuf := List.replicate 256 none, totalBytes := 0 }

/-- A round of the loop. `total_bytes` is an `int`, and its overflow has no meaning. -/
def Received.read (r : Received) (c : Chunk) : Option Received :=
  if r.totalBytes + c.bytes.length < 2 ^ 31 then
    some {
      recvBuf := c.bytes.map some ++ r.recvBuf.drop c.bytes.length
      totalBytes := r.totalBytes + c.bytes.length }
  else none

/-- The loop, up to the end of the stream. -/
def recvLoop : Received → List Chunk → Option Received
  | r, [] => some r
  | r, c :: cs => do recvLoop (← r.read c) cs

/-- What `%s` prints of a buffer. A byte that was not written and one behind the buffer have no
meaning. -/
def printString : List (Option UInt8) → Option (List UInt8)
  | [] | none :: _ => none
  | some b :: cells => if b = 0 then some [] else (printString cells).map (b :: ·)

/-- `recv_until_eof`, when the reads before the end of the stream return `chunks`: the text and the
number of bytes that it prints. -/
def recvUntilEof (chunks : List Chunk) : Option (List UInt8 × Nat) := do
  let r ← recvLoop .start chunks
  return (← printString r.recvBuf, r.totalBytes)

/-- The number of bytes that are read. -/
def totalLength (chunks : List Chunk) : Nat := (chunks.map (·.bytes.length)).sum

/-- `recv_until_eof` counts the bytes, and finds the end of the text among bytes that were read. -/
def ReceivesSafely (chunks : List Chunk) : Prop :=
  ∃ text, recvUntilEof chunks = some (text, totalLength chunks)

/-! ## The buffer -/

section
variable {w : List UInt8} {chunks : List Chunk} {r : Received}

/-- The buffer when the bytes `w` have been written from its front on. -/
def cells (w : List UInt8) : List (Option UInt8) :=
  w.map some ++ List.replicate (256 - w.length) none

/-- A read into a buffer. -/
theorem map_append_drop_cells (w : List UInt8) (c : List UInt8) :
    c.map some ++ (cells w).drop c.length = cells (overlay w c) := by
  have hfree : 256 - w.length - (c.length - w.length) =
      256 - (c.length + (w.length - c.length)) := by omega
  rw [cells, cells, overlay, List.map_append, List.map_drop, List.drop_append, List.length_map,
    List.drop_replicate, List.length_append, List.length_drop, hfree, List.append_assoc]

/-- The loop succeeds where the counter does not overflow, and leaves the reads in the buffer, one
over the other. -/
theorem recvLoop_cells {total : Nat} (h : total < 2 ^ 31) :
    recvLoop ⟨cells w, total⟩ chunks =
      if total + totalLength chunks < 2 ^ 31 then
        some ⟨cells (overlays w (chunks.map (·.bytes))), total + totalLength chunks⟩
      else none := by
  induction chunks generalizing w total with
  | nil => exact (if_pos h).symm
  | cons c cs ih =>
    have htotal : total + totalLength (c :: cs) = total + c.bytes.length + totalLength cs := by
      rw [totalLength, List.map_cons, List.sum_cons, ← Nat.add_assoc, totalLength]
    rw [recvLoop, Received.read, htotal]
    dsimp only
    by_cases hlt : total + c.bytes.length < 2 ^ 31
    · rw [if_pos hlt, map_append_drop_cells]
      exact ih hlt
    · rw [if_neg hlt, if_neg (by omega)]
      rfl

/-- The text that is printed ends at a zero byte that was written. -/
theorem printString_cells : (∃ text, printString (cells w) = some text) ↔ 0 ∈ w := by
  have hmap (k : Nat) : (∃ text, printString (w.map some ++ List.replicate k none) = some text) ↔
      0 ∈ w := by
    induction w with
    | nil => cases k <;> simp [printString, List.replicate_succ]
    | cons b w ih =>
      rw [List.map_cons, List.cons_append, printString, List.mem_cons, ← ih]
      by_cases hb : b = 0
      · simp [hb]
      · simp [hb, Ne.symm hb]
  exact hmap (256 - w.length)

/-- What is printed, and when. -/
theorem receivesSafely_iff_mem : ReceivesSafely chunks ↔
    totalLength chunks < 2 ^ 31 ∧ 0 ∈ overlays [] (chunks.map (·.bytes)) := by
  have hstart : Received.start = ⟨cells [], 0⟩ := rfl
  rw [ReceivesSafely, ← printString_cells, recvUntilEof, hstart, recvLoop_cells (by decide),
    Nat.zero_add]
  split
  · next hlt =>
    constructor
    · rintro ⟨text, h⟩
      obtain ⟨r, hr, h⟩ := Option.bind_eq_some_iff.1 h
      cases hr
      obtain ⟨text, htext, -⟩ := Option.bind_eq_some_iff.1 h
      exact ⟨hlt, text, htext⟩
    · rintro ⟨-, text, htext⟩
      refine ⟨text, Option.bind_eq_some_iff.2 ⟨_, rfl, ?_⟩⟩
      exact Option.bind_eq_some_iff.2 ⟨text, htext, rfl⟩
  · next hge => exact iff_of_false (fun ⟨_, h⟩ => by cases h) fun h => hge h.1

/-- A response without a zero byte is not received safely, whatever its length is and however it is
cut. -/
theorem not_receivesSafely (h : ∀ c ∈ chunks, 0 ∉ c.bytes) : ¬ ReceivesSafely chunks := by
  rw [receivesSafely_iff_mem, mem_overlays]
  rintro ⟨-, i, before, b, after, heq, hb, -⟩
  have hmem : b ∈ chunks.map (·.bytes) := by
    rw [heq]
    exact List.mem_append_right before List.mem_cons_self
  obtain ⟨c, hc, rfl⟩ := List.mem_map.1 hmem
  exact h c hc (List.mem_of_getElem? hb)

/-- `recv_until_eof` is safe for the responses of less than `2^31` bytes in which a read brings a
zero byte, at a position that no later read reaches. -/
theorem receives_exactly (chunks : List Chunk) : ReceivesSafely chunks ↔
    totalLength chunks < 2 ^ 31 ∧ ∃ i, Remains (chunks.map (·.bytes)) i 0 := by
  rw [receivesSafely_iff_mem, mem_overlays]

end

/-- The first line of an answer, and the line that ends its header. -/
def okLine : List UInt8 := "HTTP/1.1 200 OK\r\n\r\n".toList.map fun c => UInt8.ofNat c.toNat

theorem okLine_nonempty : 1 ≤ okLine.length := by decide +kernel

theorem okLine_fits : okLine.length ≤ 256 := by decide +kernel

/-- A response that comes in one read. -/
def okChunk : Chunk := { bytes := okLine, nonempty := okLine_nonempty, fits := okLine_fits }

/-- A response of text only is printed beyond what was read. -/
theorem text_runs_over : ¬ ∀ chunks : List Chunk, ReceivesSafely chunks := by
  intro h
  have hzero : ∀ c ∈ [okChunk], 0 ∉ c.bytes := by
    rw [List.forall_mem_singleton]
    decide +kernel
  exact not_receivesSafely hzero (h [okChunk])

/-! ## The reads of the child -/

section
variable {n : Int} {s s' : State} {chunks : List Chunk} {e : Event}

/-- The loop over more reads. -/
theorem recvLoop_append (r : Received) (cs cs' : List Chunk) :
    recvLoop r (cs ++ cs') = recvLoop r cs >>= fun r => recvLoop r cs' := by
  induction cs generalizing r with
  | nil => rfl
  | cons c cs ih =>
    rw [List.cons_append, recvLoop, recvLoop, Option.bind_eq_bind, Option.bind_assoc]
    exact congrArg _ (funext fun r => ih r)

/-- The reads of the child at a control point are `chunks`. -/
def State.HasRead (s : State) (chunks : List Chunk) : ChildPoint → Prop
  | .unborn | .setAffinity | .setScheduler | .closeWrite | .closeRead | .readStart | .writeReady =>
    chunks = []
  | .recv total => ∃ r, recvLoop .start chunks = some r ∧ r.totalBytes = total
  | .takeRecvDone | .writeEnd | .finished => s.incoming = [] ∧ s.serverClosed = true ∧
      ∃ r, recvLoop .start chunks = some r

/-- What the server sends in a step. -/
def sent? (_ : State) : Event → Option (List UInt8)
  | .serverSends bytes => some bytes
  | _ => none

/-- What the child has read and what it has not are what the server has sent. -/
def State.Delivers (s : State) (served : List (List UInt8)) : Prop :=
  ∃ chunks : List Chunk, chunks.flatMap (·.bytes) ++ s.incoming = served.flatten ∧
    s.HasRead chunks s.child

/-- The next call of the parent changes nothing about the reads. -/
theorem parent_delivers {served : List (List UInt8)} (hinv : Inv s) (h : s.Delivers served)
    (hm : ParentMoves n s s') : s'.Delivers served := by
  obtain ⟨chunks, hserved, hread⟩ := h
  cases hm
  case forked pid hp hpid =>
    have hunborn : s.child = .unborn := (hinv.atParent hp).1
    rw [hunborn] at hread
    exact ⟨chunks, hserved, hread⟩
  all_goals exact ⟨chunks, hserved, hread⟩

/-- The next call of the child reads from the front of what has come. -/
theorem child_delivers {served : List (List UInt8)} (h : s.Delivers served)
    (hm : ChildMoves s s') : s'.Delivers served := by
  obtain ⟨chunks, hserved, hread⟩ := h
  have hat {l : ChildPoint} (hp : s.child = l) : s.HasRead chunks l := hp ▸ hread
  cases hm with
  | gone rest => exact ⟨chunks, hserved, hread⟩
  | pinned hp | scheduled hp | closedWrite hp | closedRead hp | started hp =>
    exact ⟨chunks, hserved, hat hp⟩
  | wroteReady hp =>
    obtain rfl : chunks = [] := hat hp
    exact ⟨[], hserved, .start, rfl, rfl⟩
  | @received total k hp hk hlen hlt =>
    obtain ⟨r, hloop, rfl⟩ := hat hp
    have hk' : (s.incoming.take k).length = k := by
      rw [List.length_take]
      omega
    let c : Chunk := { bytes := s.incoming.take k, nonempty := by omega, fits := by omega }
    refine ⟨chunks ++ [c], ?_, ?_⟩
    · rw [List.flatMap_append, List.flatMap_singleton, List.append_assoc, List.take_append_drop]
      exact hserved
    · refine ⟨⟨c.bytes.map some ++ r.recvBuf.drop c.bytes.length, r.totalBytes + k⟩, ?_, rfl⟩
      have hread : r.read c =
          some ⟨c.bytes.map some ++ r.recvBuf.drop c.bytes.length, r.totalBytes + k⟩ := by
        rw [Received.read, hk', if_pos hlt]
      rw [recvLoop_append, hloop]
      show (r.read c >>= fun r => some r) = _
      rw [hread]
      rfl
  | @sawEof total hp hempty hclosed =>
    obtain ⟨r, hloop, -⟩ := hat hp
    exact ⟨chunks, hserved, hempty, hclosed, r, hloop⟩
  | tookRecvDone hp | wroteEnd hp => exact ⟨chunks, hserved, hat hp⟩

/-- The reads of the child, before more comes and before the server closes its side. -/
theorem State.HasRead.serves {l : ChildPoint} {incoming : List UInt8} {serverClosed : Bool}
    (h : s.HasRead chunks l) (hopen : s.serverClosed = false) :
    State.HasRead { s with incoming, serverClosed } chunks l := by
  cases l
  case takeRecvDone | writeEnd | finished => cases hopen.symm.trans h.2.1
  all_goals exact h

/-- Every step delivers what the server sends in it. -/
theorem step_delivers {served : List (List UInt8)} (hinv : Inv s) (h : s.Delivers served)
    (hs : step n s e = some s') : s'.Delivers (served ++ (sent? s e).toList) := by
  have quiet : sent? s e = none → served ++ (sent? s e).toList = served := fun hnone => by
    rw [hnone, Option.toList_none, List.append_nil]
  cases moves_of_step hs with
  | parent _ hm =>
    rw [quiet rfl]
    exact parent_delivers hinv h hm
  | child _ hm =>
    rw [quiet rfl]
    exact child_delivers h hm
  | serverSends hopen =>
    obtain ⟨chunks, hserved, hread⟩ := h
    refine ⟨chunks, ?_, hread.serves hopen⟩
    rw [← List.append_assoc, hserved]
    simp [sent?]
  | serverCloses hopen =>
    rw [quiet rfl]
    obtain ⟨chunks, hserved, hread⟩ := h
    exact ⟨chunks, hserved, hread.serves hopen⟩
  | killParent | killChild | serverReads | tick =>
    rw [quiet rfl]
    exact h

/-- In every run, the child reads what the server sends, in its order. -/
theorem exec_delivers (es : List Event) (h : exec (step n) Free start es = some s) :
    s.Delivers (observed (step n) sent? start es) := by
  have hrun := observed_invariant sent? (I := fun s served => Inv s ∧ s.Delivers served)
    ⟨inv_start, [], rfl, rfl⟩
    (fun s e s' served hi _ hs => ⟨inv_step hi.1 hs, step_delivers hi.1 hi.2 hs⟩) es h
  exact hrun.2

/-- What the loop has counted. -/
theorem totalBytes_eq {r : Received} (h : recvLoop .start chunks = some r) :
    r.totalBytes = (chunks.flatMap (·.bytes)).length := by
  have hstart : Received.start = ⟨cells [], 0⟩ := rfl
  rw [hstart, recvLoop_cells (by decide), Nat.zero_add] at h
  split at h <;> cases h
  rw [List.length_flatMap]
  rfl

/-- When the child has seen the end of the stream, it has read and counted all that the server has
sent; where no zero byte is among that, it is not received safely. -/
theorem exec_eof (es : List Event) (h : exec (step n) Free start es = some s)
    (heof : s.child = .takeRecvDone) :
    ∃ (chunks : List Chunk) (r : Received), recvLoop .start chunks = some r ∧
      chunks.flatMap (·.bytes) = (observed (step n) sent? start es).flatten ∧
      r.totalBytes = (observed (step n) sent? start es).flatten.length ∧
      (0 ∉ (observed (step n) sent? start es).flatten → ¬ ReceivesSafely chunks) := by
  obtain ⟨chunks, hserved, hread⟩ := exec_delivers es h
  rw [heof] at hread
  obtain ⟨hempty, -, r, hloop⟩ := hread
  rw [hempty, List.append_nil] at hserved
  refine ⟨chunks, r, hloop, hserved, hserved ▸ totalBytes_eq hloop, fun hzero => ?_⟩
  rw [← hserved, List.mem_flatMap] at hzero
  exact not_receivesSafely fun c hc hmem => hzero ⟨c, hc, hmem⟩

end

end HttpClient
