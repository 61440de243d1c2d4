import Mathlib.Tactic

/-!
# Broadcast rings

A ring keeps the last `cap` messages that were sent. A receiver holds the position of its
next message; when that has been overwritten, the receiver is told that it lags, and goes on
with the oldest message that is kept. To the receiver the ring looks like a queue of its own
(`Ring.seen`), in which each new message may push out the oldest one (`Ring.seen_send`), and
which it takes from at the front (`Ring.seen_recv`).
-/

namespace KeeplinSrv.Common

/-- The messages that are kept, oldest first, and how many were overwritten before. -/
structure Ring (α : Type) (cap : ℕ) where
  overwritten : ℕ
  kept : List α
  length_le : kept.length ≤ cap
  full : 0 < overwritten → kept.length = cap

/-- What a receiver is given, with its next position. -/
inductive Received (α : Type)
  | msg (m : α) (next : ℕ)
  | lagged (next : ℕ)
  | empty

/-- A receiver's own queue: whether it has missed messages, and those it has not taken. -/
structure Inbox (α : Type) where
  lagged : Bool
  queue : List α

/-- A message is added to an inbox for `cap` messages; the oldest one makes room. -/
def Inbox.push {α : Type} (cap : ℕ) (b : Inbox α) (m : α) : Inbox α :=
  if cap < (b.queue ++ [m]).length then ⟨true, (b.queue ++ [m]).drop 1⟩
  else ⟨b.lagged, b.queue ++ [m]⟩

namespace Ring

variable {α : Type} {cap : ℕ}

instance : Inhabited (Ring α cap) := ⟨⟨0, [], Nat.zero_le _, fun h => absurd h (lt_irrefl 0)⟩⟩

/-- The position of the next message to be sent, where a new receiver starts. -/
def next (r : Ring α cap) : ℕ := r.overwritten + r.kept.length

theorem length_send {r : Ring α cap} (m : α) (h : ¬ r.kept.length < cap) :
    ((r.kept ++ [m]).drop 1).length = cap := by
  have hle := r.length_le
  simp only [List.length_drop, List.length_append, List.length_singleton]
  omega

/-- The oldest message is overwritten where the ring is full. -/
def send (r : Ring α cap) (m : α) : Ring α cap :=
  if h : r.kept.length < cap then
    ⟨r.overwritten, r.kept ++ [m], by simpa using h, fun hpos => absurd (r.full hpos) h.ne⟩
  else
    ⟨r.overwritten + 1, (r.kept ++ [m]).drop 1, (r.length_send m h).le,
      fun _ => r.length_send m h⟩

/-- The message at a position, or the oldest position that is kept. -/
def recv (r : Ring α cap) (pos : ℕ) : Received α :=
  if pos < r.overwritten then .lagged r.overwritten
  else
    match r.kept[pos - r.overwritten]? with
    | some m => .msg m (pos + 1)
    | none => .empty

/-- What the ring is to a receiver at a position. -/
def seen (r : Ring α cap) (pos : ℕ) : Inbox α :=
  ⟨decide (pos < r.overwritten), r.kept.drop (pos - r.overwritten)⟩

variable {r : Ring α cap} {pos : ℕ} {m : α}

/-- A new receiver sees nothing that was sent before. -/
theorem seen_next : r.seen r.next = ⟨false, []⟩ := by
  simp [seen, next]

theorem next_send : (r.send m).next = r.next + 1 := by
  have hle := r.length_le
  unfold send next
  split_ifs with h
  · simp only [List.length_append, List.length_singleton]
    omega
  · dsimp only
    rw [r.length_send m h]
    omega

/-- **To each receiver, sending is a push into its own queue.** -/
theorem seen_send (hpos : pos ≤ r.next) : (r.send m).seen pos = (r.seen pos).push cap m := by
  have hle := r.length_le
  unfold next at hpos
  unfold send seen Inbox.push
  simp only [List.length_append, List.length_drop, List.length_singleton]
  split_ifs with hroom hlong hlong
  · -- nothing has been overwritten yet
    have hzero : r.overwritten = 0 := by
      by_contra hne
      exact absurd (r.full (Nat.pos_of_ne_zero hne)) hroom.ne
    omega
  · dsimp only
    rw [List.drop_append_of_le_length (by omega)]
  · -- the receiver is at the oldest message or behind it
    have hzero : pos - r.overwritten = 0 := by omega
    have hlag : pos < r.overwritten + 1 := by omega
    have hzero' : pos - (r.overwritten + 1) = 0 := by omega
    simp [hzero, hzero', hlag]
  · -- it is ahead of the message that is overwritten
    have hahead : ¬ pos < r.overwritten := by omega
    have hahead' : ¬ pos < r.overwritten + 1 := by omega
    simp only [hahead, hahead', decide_false, List.drop_drop]
    rw [← List.drop_append_of_le_length (by omega)]
    congr 2
    omega

/-- **To each receiver, receiving takes from the front of its own queue.** -/
theorem seen_recv {n : ℕ} (h : r.recv pos = .msg m n) : ∃ queue,
    r.seen pos = ⟨false, m :: queue⟩ ∧ r.seen n = ⟨false, queue⟩ ∧ n ≤ r.next := by
  unfold recv at h
  split_ifs at h with hlag
  split at h
  · next m' hget =>
    cases h
    obtain ⟨hlt, rfl⟩ := List.getElem?_eq_some_iff.mp hget
    have hnext : pos + 1 - r.overwritten = pos - r.overwritten + 1 := by omega
    refine ⟨r.kept.drop (pos - r.overwritten + 1), ?_, ?_, ?_⟩
    · rw [seen, List.drop_eq_getElem_cons hlt]
      simp [hlag]
    · rw [seen, hnext]
      simp
      omega
    · unfold next
      omega
  · cases h

/-- A receiver that lags goes on with what is kept. -/
theorem seen_lagged {n : ℕ} (h : r.recv pos = .lagged n) : (r.seen pos).lagged = true ∧
    r.seen n = ⟨false, (r.seen pos).queue⟩ ∧ n ≤ r.next := by
  unfold recv at h
  split_ifs at h with hlag
  · cases h
    have hzero : pos - r.overwritten = 0 := by omega
    simp [seen, next, hlag, hzero]
  · split at h <;> cases h

end Ring

end KeeplinSrv.Common
