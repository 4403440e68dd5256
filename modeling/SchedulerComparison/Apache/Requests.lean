import SchedulerComparison.Apache.HttpClient

/-!
# The stream of requests

`write` may take any part of what it is given, none of it included, and `send_get` goes on behind
what was taken. So the bytes at the socket are always the requests that are complete and a part of
the next one (`SentAt`), and behind the sending loop they are all requests and nothing else
(`requests_exact`).
-/

open Transition

namespace HttpClient

/-! ## The requests and their parts -/

/-- The requests that have been sent are followed by one more. -/
theorem requests_succ (k : Nat) : requests (k + 1) = requests k ++ msg := by
  rw [requests, List.replicate_succ', List.flatten_append, List.flatten_singleton, requests]

/-- Fewer requests are the first of more. -/
theorem requests_isPrefix {k n : Nat} (h : k ≤ n) : requests k <+: requests n := by
  induction n, h using Nat.le_induction with
  | base => exact List.prefix_rfl
  | succ n h ih =>
    rw [requests_succ]
    exact ih.trans (List.prefix_append _ msg)

/-- What a write takes goes behind what was sent. -/
theorem append_write {sent : List UInt8} {j curr : Nat} (h : sent = requests j ++ msg.take curr)
    (k : Nat) : sent ++ (msg.drop curr).take k = requests j ++ msg.take (curr + k) := by
  rw [h, List.append_assoc, List.take_add]

/-- The last write of a request completes it. -/
theorem append_lastWrite {sent : List UInt8} {j curr remaining : Nat}
    (h : sent = requests j ++ msg.take curr) (hlen : curr + remaining = msg.length) :
    sent ++ (msg.drop curr).take remaining = requests (j + 1) := by
  rw [append_write h, hlen, List.take_length, requests_succ]

theorem msg_length_pos : 0 < msg.length := by decide +kernel

/-! ## What has been sent -/

/-- The parent is behind its sending loop. -/
def ParentPoint.doneSending : ParentPoint → Bool
  | .shutdown | .readEnd | .wait | .log => true
  | _ => false

/-- The bytes at the socket, at a control point of the parent. Where it has returned from `main`, it
may have sent nothing, because `fork` failed. -/
def State.SentAt (n : Int) (s : State) : ParentPoint → Prop
  | .sleep | .fork | .setAffinity | .setScheduler | .closeRead | .closeWrite | .writeStart
  | .readReady | .takeStart => s.sent = []
  | .sendHead total => total ≤ n ∧ s.sent = requests (n.toNat - total.toNat)
  | .sendWrite total remaining curr => (0 < total ∧ total ≤ n) ∧ curr + remaining = msg.length ∧
      s.sent = requests (n.toNat - total.toNat) ++ msg.take curr
  | .shutdown | .readEnd | .wait | .log => s.sent = requests n.toNat
  | .returned => s.sent = [] ∨ s.sent = requests n.toNat

section
variable {n : Int} {s s' : State} {e : Event}

/-- At every control point, the bytes at the socket start the requests. -/
theorem State.SentAt.isPrefix {l : ParentPoint} (h : s.SentAt n l) :
    s.sent <+: requests n.toNat := by
  have hnil {bytes : List UInt8} (hs : s.sent = []) : s.sent <+: bytes := by
    rw [hs]
    exact List.nil_prefix
  cases l
  case sendHead total =>
    rw [h.2]
    exact requests_isPrefix (Nat.sub_le _ _)
  case sendWrite total remaining curr =>
    obtain ⟨⟨hpos, hle⟩, -, hsent⟩ := h
    -- the request that is under way is one of the requests
    have hnext : n.toNat - total.toNat + 1 ≤ n.toNat := by omega
    rw [hsent]
    refine List.IsPrefix.trans ?_ (requests_isPrefix hnext)
    rw [requests_succ]
    exact (List.prefix_append_right_inj _).2 (List.take_prefix curr msg)
  case shutdown | readEnd | wait | log =>
    rw [show s.sent = _ from h]
  case returned =>
    rcases h with hs | hs
    · exact hnil hs
    · rw [hs]
  all_goals exact hnil h

/-- Behind the loop, the bytes at the socket are the requests. -/
theorem State.SentAt.eq_of_done {l : ParentPoint} (h : s.SentAt n l) (hl : l.doneSending = true) :
    s.sent = requests n.toNat := by
  cases l <;> first | exact h | cases hl

/-- The next call of the parent keeps the bytes at the socket right. -/
theorem parent_sentAt (h : s.SentAt n s.parent) (hm : ParentMoves n s s') :
    s'.SentAt n s'.parent := by
  have hat {l : ParentPoint} (hp : s.parent = l) : s.SentAt n l := hp ▸ h
  cases hm with
  | gone rest => exact h
  | slept hp | pinned hp | scheduled hp | closedRead hp | closedWrite hp | wroteStart hp | ready hp
  | forked hp | shut hp | ended hp | waited hp =>
    have hl := hat hp
    exact hl
  | forkFailed hp => exact .inl (hat hp)
  | logged hp | notLogged hp => exact .inr (hat hp)
  | started hp =>
    have hnone : s.sent = [] := hat hp
    refine ⟨Int.le_refl n, ?_⟩
    rw [Nat.sub_self]
    exact hnone
  | sends hp hpos =>
    obtain ⟨hle, hsent⟩ := hat hp
    refine ⟨⟨hpos, hle⟩, Nat.zero_add _, ?_⟩
    rw [List.take_zero, List.append_nil]
    exact hsent
  | @sentAll total hp hpos =>
    obtain ⟨-, hsent⟩ := hat hp
    have hall : n.toNat - total.toNat = n.toNat := by omega
    rw [hall] at hsent
    exact hsent
  | @wrote total remaining curr k hp hk =>
    obtain ⟨htotal, hlen, hsent⟩ := hat hp
    exact ⟨htotal, by omega, append_write hsent k⟩
  | @wroteLast total remaining curr hp =>
    obtain ⟨⟨hpos, hle⟩, hlen, hsent⟩ := hat hp
    have hcount : n.toNat - (total - 1).toNat = n.toNat - total.toNat + 1 := by omega
    refine ⟨by omega, ?_⟩
    rw [hcount]
    exact append_lastWrite hsent hlen

/-- The child does not use the parent's side of the socket. -/
theorem child_sentAt (h : s.SentAt n s.parent) (hm : ChildMoves s s') :
    s'.SentAt n s'.parent := by
  cases hm <;> exact h

/-- Every step keeps the bytes at the socket right. -/
theorem step_sentAt (h : s.SentAt n s.parent) (hs : step n s e = some s') :
    s'.SentAt n s'.parent := by
  cases moves_of_step hs with
  | parent _ hm => exact parent_sentAt h hm
  | child _ hm => exact child_sentAt h hm
  | killParent | killChild | serverReads | serverSends | serverCloses | tick => exact h

/-- In every state of a run, the bytes at the socket are right. -/
theorem reach_sentAt (h : Reach (step n) Free start s) : s.SentAt n s.parent :=
  h.invariant (I := fun s => s.SentAt n s.parent) rfl fun _ _ _ hi _ hs => step_sentAt hi hs

end

/-- However the writes are cut, the bytes at the socket start the requests at every moment, and they
are the requests when the sending loop has finished. -/
theorem requests_exact (numRequests : Int) (s : State)
    (h : Reach (step numRequests) Free start s) :
    s.sent <+: requests numRequests.toNat ∧
      (s.parent.doneSending = true → s.sent = requests numRequests.toNat) :=
  ⟨(reach_sentAt h).isPrefix, (reach_sentAt h).eq_of_done⟩

/-- Two requests in five writes, one of which takes nothing. -/
def shortWrites : List Event :=
  [.tick 5000000000, .parent 0, .parent 100, .parent 0, .parent 0, .parent 0, .parent 0, .child 0,
    .child 0, .child 0, .child 0, .parent 1, .child 1, .child 1, .parent 1, .parent 0, .parent 0,
    .serverReads 5, .parent 5, .parent 0, .serverReads 90, .parent 43, .parent 0, .parent 47,
    .serverReads 80, .parent 1, .parent 0]

/-- The cut requests arrive as two requests. -/
theorem requests_shortWrites :
    ∃ s, Reach (step 2) Free start s ∧ s.parent = .shutdown ∧ s.sent = requests 2 := by
  have hdone : (exec (step 2) Free start shortWrites).map (·.parent) = some .shutdown := by
    decide +kernel
  obtain ⟨s, hrun, hp⟩ := Option.map_eq_some_iff.1 hdone
  have hreach : Reach (step 2) Free start s := .of_exec shortWrites hrun
  exact ⟨s, hreach, hp, (requests_exact 2 s hreach).2 (by rw [hp]; rfl)⟩

end HttpClient
