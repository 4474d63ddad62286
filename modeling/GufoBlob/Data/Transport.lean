import Mathlib.Data.List.Basic
import Mathlib.Order.Basic
import Mathlib.Data.Nat.Basic

/-!
# A buffered transport

The sending side of a stream: what is written goes to the network as far as the socket takes it, and
the rest waits in a buffer. How much the socket takes at each attempt is a pattern that the
transport is given. `drain` goes on until at most `mark` elements wait. The receiver keeps what was
delivered before the end of the file.

`stored_upload` — what the receiver has after a write, a drain and the end of the file.
-/

namespace GufoBlob.Data

/-- The sending side of a stream. -/
structure Transport (α : Type) where
  /-- How many elements the socket takes at each of the next attempts. -/
  accepts : List Nat
  pending : List α
  delivered : List α
  /-- What the receiver has got, once it has seen the end of the file. -/
  stored : Option (List α)
  deriving DecidableEq

namespace Transport

variable {α : Type}

/-- A stream on which nothing was written. -/
def opened (accepts : List Nat) : Transport α := ⟨accepts, [], [], none⟩

/-- The socket takes `k` elements of the buffer. -/
def send (t : Transport α) (k : Nat) : Transport α :=
  { t with pending := t.pending.drop k, delivered := t.delivered ++ t.pending.take k }

/-- Writes `b`: one attempt to send is made at once. -/
def write (t : Transport α) (b : List α) : Transport α :=
  { (send { t with pending := t.pending ++ b } (t.accepts.headD 0)) with accepts := t.accepts.tail }

/-- The attempts `ks`, until at most `mark` elements wait; false when they are used up before. -/
def drainWith (mark : Nat) : List Nat → Transport α → Bool × Transport α
  | [], t => (decide (t.pending.length ≤ mark), { t with accepts := [] })
  | k :: ks, t =>
      if t.pending.length ≤ mark then (true, { t with accepts := k :: ks })
      else drainWith mark ks (t.send k)

def drain (mark : Nat) (t : Transport α) : Bool × Transport α := drainWith mark t.accepts t

/-- The end of the file is sent at once: what waits in the buffer is lost. -/
def shutdown (t : Transport α) : Transport α :=
  { t with pending := [], stored := t.stored.or (some t.delivered) }

/-- The buffer is flushed, and the end of the file is sent. -/
def close (t : Transport α) : Transport α :=
  { t with pending := [], delivered := t.delivered ++ t.pending,
           stored := t.stored.or (some (t.delivered ++ t.pending)) }

/-- How many of `n` waiting elements are left when a drain returns. -/
def leftAfter (mark : Nat) : List Nat → Nat → Option Nat
  | [], n => if n ≤ mark then some n else none
  | k :: ks, n => if n ≤ mark then some n else leftAfter mark ks (n - k)

/-- How many of `n` elements are left when they were written and drained. -/
def leftOf (mark : Nat) (accepts : List Nat) (n : Nat) : Option Nat :=
  leftAfter mark accepts.tail (n - accepts.headD 0)

/-- All that was written. -/
def written (t : Transport α) : List α := t.delivered ++ t.pending

@[simp] theorem written_send (t : Transport α) (k : Nat) : (t.send k).written = t.written := by
  unfold written send
  rw [List.append_assoc, List.take_append_drop]

@[simp] theorem length_pending_send (t : Transport α) (k : Nat) :
    (t.send k).pending.length = t.pending.length - k := List.length_drop

/-- A drain neither adds nor loses anything, and leaves what `leftAfter` says. -/
theorem drainWith_spec {mark : Nat} {ks : List Nat} {t t' : Transport α}
    (h : drainWith mark ks t = (true, t')) :
    t'.written = t.written ∧ t'.stored = t.stored ∧
      leftAfter mark ks t.pending.length = some t'.pending.length := by
  induction ks generalizing t with
  | nil =>
      unfold drainWith at h
      obtain ⟨hle, rfl⟩ := Prod.mk.inj h
      exact ⟨rfl, rfl, if_pos (of_decide_eq_true hle)⟩
  | cons k ks ih =>
      unfold drainWith at h
      unfold leftAfter
      by_cases hle : t.pending.length ≤ mark
      · rw [if_pos hle] at h
        obtain ⟨-, rfl⟩ := Prod.mk.inj h
        exact ⟨rfl, rfl, if_pos hle⟩
      · rw [if_neg hle] at h
        obtain ⟨hwritten, hstored, hleft⟩ := ih h
        rw [written_send] at hwritten
        rw [length_pending_send] at hleft
        exact ⟨hwritten, hstored, by rw [if_neg hle, hleft]⟩

/-- A drain times out only when the attempts are used up before little enough waits. -/
theorem leftAfter_of_drainWith {mark : Nat} {ks : List Nat} {t : Transport α}
    (h : (drainWith mark ks t).1 = false) : leftAfter mark ks t.pending.length = none := by
  induction ks generalizing t with
  | nil =>
      unfold drainWith at h
      exact if_neg (of_decide_eq_false h)
  | cons k ks ih =>
      unfold drainWith at h
      unfold leftAfter
      by_cases hle : t.pending.length ≤ mark
      · rw [if_pos hle] at h
        cases h
      · rw [if_neg hle] at h ⊢
        have hleft := ih h
        rwa [length_pending_send] at hleft

/-- The receiver has what was written, but for what was left when the drain returned. -/
theorem stored_upload {mark : Nat} {accepts : List Nat} {b : List α} {t : Transport α}
    (h : ((opened accepts).write b).drain mark = (true, t)) :
    ∃ r, leftOf mark accepts b.length = some r ∧ r ≤ b.length ∧
      t.shutdown.stored = some (b.take (b.length - r)) := by
  obtain ⟨hwritten, hstored, hleft⟩ := drainWith_spec h
  have hb : t.written = b := by
    rw [hwritten]
    exact written_send { (opened accepts) with pending := [] ++ b } _
  have hlen : t.delivered.length + t.pending.length = b.length := by
    rw [← hb, written, List.length_append]
  refine ⟨t.pending.length, ?_, by omega, ?_⟩
  · rw [← hleft]
    exact congrArg (leftAfter mark accepts.tail) (by simp [write, send, opened])
  · have hnone : t.stored = none := hstored
    have htake : t.delivered = b.take (b.length - t.pending.length) := by
      rw [← hb, written, List.length_append, Nat.add_sub_cancel, List.take_left]
    rw [shutdown, hnone, htake]
    rfl

/-- When it is known what is left, the drain returns. -/
theorem drain_of_leftOf {mark : Nat} {accepts : List Nat} {b : List α} {r : Nat}
    (h : leftOf mark accepts b.length = some r) :
    (((opened accepts).write b).drain mark).1 = true ∧ r ≤ b.length ∧
      (((opened accepts).write b).drain mark).2.shutdown.stored =
        some (b.take (b.length - r)) := by
  have hpending : ((opened accepts).write b).pending.length = b.length - accepts.headD 0 := by
    simp [write, send, opened]
  cases hdrain : (((opened accepts).write b).drain mark).1 with
  | false =>
      have hnone := leftAfter_of_drainWith hdrain
      rw [hpending] at hnone
      cases h.symm.trans hnone
  | true =>
      obtain ⟨k, hk, hle, hstored⟩ := stored_upload (Prod.ext hdrain rfl)
      obtain rfl : k = r := Option.some.inj (hk.symm.trans h)
      exact ⟨rfl, hle, hstored⟩

end Transport

end GufoBlob.Data
