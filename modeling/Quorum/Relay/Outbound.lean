import Quorum.Order.Along

/-!
# The queue of a connection and its counter

What the relay has for a connection goes into a channel without a bound, and a counter beside it
says how much is in there (`Outbound`).  Replies and backlog are put in whatever it says (`send`);
what is fanned out is refused once the counter has reached `MAX_QUEUE` (`offer`), and the
subscriber is dropped.

A message is put into the channel first and counted then.  The task that writes to the socket may
take it out in between, and counts it out before it was counted in: the counter, a machine word,
goes from zero to its largest value, and what is offered now is refused although nothing is queued
(`counter_wraps`).  An offer may also read the counter while a message that was taken out is still
counted.

As long as the writer takes nothing out while all that is queued has still to be counted, and no
offer reads the counter between the two steps of the writer, the counter never passes zero and a
message is refused only when the queue is full or its reader is gone (`refused_only_when_full`).
-/

namespace Quorum

namespace Outbound

variable {π : Type}

/-- The most that is fanned out ahead of a connection. -/
def MAX_QUEUE : ℕ := 512

/-- What a call to `send` or `offer` has to do next. -/
inductive Call (π : Type)
  /-- `offer` reads the counter. -/
  | load (msg : π)
  /-- `self.tx.send(msg)`. -/
  | push (msg : π)
  /-- `self.depth.fetch_add(1)`. -/
  | count
  | returned
deriving DecidableEq

/-- What was there when a call returned `false`. -/
structure Refusal where
  queued : ℕ
  alive : Bool
deriving DecidableEq

/-- A queue, its counter, and all that is under way on it. -/
structure Queue (π : Type) where
  queue : List π
  depth : BitVec 64
  /-- The reading end is there. -/
  alive : Bool
  calls : List (Call π)
  /-- The writer has taken a message out and has yet to count it. -/
  taking : Bool
  /-- How often the counter went up, and how often down. -/
  added : ℕ
  taken : ℕ
  refused : List Refusal
deriving DecidableEq

inductive Action (π : Type)
  | send (msg : π)
  | offer (msg : π)
  /-- A call makes its next step. -/
  | go (i : ℕ)
  /-- `rx.recv()` and `depth.fetch_sub(1)`. -/
  | recv
  | decrement
  /-- The writer ends, and nothing is read any more. -/
  | stop
deriving DecidableEq

namespace Queue

/-- `Outbound::new()`. -/
def new : Queue π where
  queue := []
  depth := 0
  alive := true
  calls := []
  taking := false
  added := 0
  taken := 0
  refused := []

/-- A call goes on with its next step. -/
def become (s : Queue π) (i : ℕ) (call : Call π) : Queue π := { s with calls := s.calls.set i call }

/-- A call returns `false`. -/
def refuse (s : Queue π) (i : ℕ) : Queue π :=
  { s.become i .returned with
    refused := s.refused ++ [{ queued := s.queue.length, alive := s.alive }] }

/-- A call makes its next step. -/
def go (s : Queue π) (i : ℕ) : Queue π :=
  match s.calls[i]? with
  | some (.load msg) => if MAX_QUEUE ≤ s.depth.toNat then s.refuse i else s.become i (.push msg)
  | some (.push msg) =>
    if s.alive then { s with queue := s.queue ++ [msg] }.become i .count else s.refuse i
  | some .count => { s with depth := s.depth + 1, added := s.added + 1 }.become i .returned
  | some .returned => s
  | none => s

def recv (s : Queue π) : Queue π :=
  match s.queue with
  | [] => s
  | _ :: queue => if s.alive ∧ ¬s.taking then { s with queue, taking := true } else s

def decrement (s : Queue π) : Queue π :=
  if s.taking then { s with depth := s.depth - 1, taken := s.taken + 1, taking := false } else s

def step (s : Queue π) : Action π → Queue π
  | .send msg => { s with calls := s.calls ++ [.push msg] }
  | .offer msg => { s with calls := s.calls ++ [.load msg] }
  | .go i => s.go i
  | .recv => s.recv
  | .decrement => s.decrement
  | .stop => if s.taking then s else { s with alive := false }

def run (s : Queue π) (l : List (Action π)) : Queue π := l.foldl step s

/-! ### What is asked of a run -/

/-- A call has put its message in and has to count it. -/
def Counting : Call π → Bool
  | .count => true
  | _ => false

/-- How many calls have to count their message. -/
def uncounted (s : Queue π) : ℕ := s.calls.countP Counting

/-- An offer reads the counter. -/
def Loads (s : Queue π) (i : ℕ) : Bool :=
  match s.calls[i]? with
  | some (.load _) => true
  | _ => false

/-- The writer takes something out only when part of what is queued is counted, and an offer reads
the counter only when the writer has counted what it took. -/
def InTurn (s : Queue π) : Action π → Prop
  | .recv => s.uncounted < s.queue.length ∨ s.queue.length = 0
  | .go i => s.Loads i = true → s.taking = false
  | _ => True

instance InTurn.decidable (s : Queue π) (a : Action π) : Decidable (s.InTurn a) := by
  cases a <;> unfold InTurn <;> infer_instance

/-- The counter went below zero at no time, and every message that was refused found the queue full
or its reader gone. -/
structure Sound (s : Queue π) : Prop where
  depth : s.taken ≤ s.added
  refused : ∀ r ∈ s.refused, MAX_QUEUE ≤ r.queued ∨ r.alive = false

/-- What the counter says, against what is queued. -/
structure Counted (s : Queue π) : Prop where
  depth : s.depth = BitVec.ofNat 64 (s.added - s.taken)
  net : s.added + s.uncounted = s.taken + s.queue.length + s.taking.toNat
  uncounted : s.uncounted ≤ s.queue.length
  refused : ∀ r ∈ s.refused, MAX_QUEUE ≤ r.queued ∨ r.alive = false

/-! ### The counter follows the queue -/

/-- A step of a call changes how many have to count by that call alone. -/
theorem uncounted_become {s : Queue π} {i : ℕ} {old : Call π} (h : s.calls[i]? = some old)
    (call : Call π) :
    (s.become i call).uncounted + (Counting old).toNat = s.uncounted + (Counting call).toNat := by
  obtain ⟨hi, rfl⟩ := List.getElem?_eq_some_iff.mp h
  have hle : (if Counting s.calls[i] then 1 else 0) ≤ s.uncounted := List.boole_getElem_le_countP hi
  have hset : (s.become i call).uncounted = s.uncounted - (if Counting s.calls[i] then 1 else 0) +
      (if Counting call then 1 else 0) := List.countP_set hi
  rw [Bool.toNat, Bool.toNat, cond_eq_ite, cond_eq_ite]
  omega

namespace Counted

variable {s : Queue π}

theorem new : Counted (Queue.new (π := π)) :=
  ⟨rfl, rfl, le_rfl, fun _ hr => absurd hr List.not_mem_nil⟩

theorem taken_le (h : Counted s) : s.taken ≤ s.added := by
  have hnet := h.net
  have hle := h.uncounted
  omega

/-- While the writer has counted all it took, the counter is at most what is queued. -/
theorem toNat_depth_le (h : Counted s) (ht : s.taking = false) : s.depth.toNat ≤ s.queue.length := by
  have hnet := h.net
  have hle := h.uncounted
  rw [ht, Bool.toNat_false] at hnet
  calc s.depth.toNat = (s.added - s.taken) % 2 ^ 64 := by rw [h.depth, BitVec.toNat_ofNat]
    _ ≤ s.added - s.taken := Nat.mod_le _ _
    _ ≤ s.queue.length := by omega

theorem call (h : Counted s) {c : Call π} (hc : Counting c = false) :
    Counted { s with calls := s.calls ++ [c] } := by
  have hsame : Queue.uncounted { s with calls := s.calls ++ [c] } = s.uncounted := by
    simp [Queue.uncounted, List.countP_append, hc]
  exact ⟨h.depth, hsame ▸ h.net, hsame ▸ h.uncounted, h.refused⟩

/-- A call that neither has put anything in nor does so. -/
theorem become (h : Counted s) {i : ℕ} {old c : Call π} (hi : s.calls[i]? = some old)
    (hold : Counting old = false) (hc : Counting c = false) : Counted (s.become i c) := by
  have hsame : (s.become i c).uncounted = s.uncounted := by
    simpa [hold, hc] using uncounted_become hi c
  exact ⟨h.depth, hsame ▸ h.net, hsame ▸ h.uncounted, h.refused⟩

theorem refuse (h : Counted s) {i : ℕ} {old : Call π} (hi : s.calls[i]? = some old)
    (hold : Counting old = false) (hr : MAX_QUEUE ≤ s.queue.length ∨ s.alive = false) :
    Counted (s.refuse i) := by
  have hb := h.become hi hold (c := .returned) rfl
  refine ⟨hb.depth, hb.net, hb.uncounted, fun r hm => ?_⟩
  rcases List.mem_append.mp hm with hm | hm
  · exact h.refused r hm
  · rw [List.mem_singleton.mp hm]
    exact hr

theorem go (h : Counted s) {i : ℕ} (hturn : s.Loads i = true → s.taking = false) :
    Counted (s.go i) := by
  unfold Queue.go
  split
  · next msg hi =>
    have htaking : s.taking = false := hturn (by rw [Loads, hi])
    split
    · next hfull => exact h.refuse hi rfl (.inl (hfull.trans (h.toNat_depth_le htaking)))
    · exact h.become hi rfl rfl
  · next msg hi =>
    split
    · -- the message is there before it is counted
      have hone := uncounted_become (s := { s with queue := s.queue ++ [msg] }) hi .count
      change _ + 0 = s.uncounted + 1 at hone
      have hnet := h.net
      have hle := h.uncounted
      refine ⟨h.depth, ?_, ?_, h.refused⟩
      · change s.added + _ = s.taken + (s.queue ++ [msg]).length + s.taking.toNat
        rw [List.length_append, List.length_singleton]
        omega
      · change _ ≤ (s.queue ++ [msg]).length
        rw [List.length_append, List.length_singleton]
        omega
    · next hgone => exact h.refuse hi rfl (.inr (Bool.eq_false_iff.mpr hgone))
  · next hi =>
    have hone := uncounted_become (s := { s with depth := s.depth + 1, added := s.added + 1 }) hi
      .returned
    change _ + 1 = s.uncounted + 0 at hone
    have hnet := h.net
    have hle := h.uncounted
    refine ⟨?_, ?_, ?_, h.refused⟩
    · change s.depth + 1 = BitVec.ofNat 64 (s.added + 1 - s.taken)
      rw [h.depth, Nat.sub_add_comm h.taken_le, BitVec.ofNat_add]
      rfl
    · change s.added + 1 + _ = s.taken + s.queue.length + s.taking.toNat
      omega
    · change _ ≤ s.queue.length
      omega
  · exact h
  · exact h

theorem recv (h : Counted s) (hturn : s.uncounted < s.queue.length ∨ s.queue.length = 0) :
    Counted s.recv := by
  unfold Queue.recv
  split
  · exact h
  · next msg queue hq =>
    have hlen : s.queue.length = queue.length + 1 := by rw [hq, List.length_cons]
    split
    · next hidle =>
      have hnet := h.net
      rw [Bool.eq_false_iff.mpr hidle.2, Bool.toNat_false] at hnet
      refine ⟨h.depth, ?_, ?_, h.refused⟩
      · change s.added + s.uncounted = s.taken + queue.length + 1
        omega
      · change s.uncounted ≤ queue.length
        omega
    · exact h

theorem decrement (h : Counted s) : Counted s.decrement := by
  unfold Queue.decrement
  split
  · next htaking =>
    have hnet := h.net
    have hle := h.uncounted
    rw [htaking, Bool.toNat_true] at hnet
    refine ⟨?_, ?_, h.uncounted, h.refused⟩
    · change s.depth - 1 = BitVec.ofNat 64 (s.added - (s.taken + 1))
      have hone : s.added - s.taken = s.added - (s.taken + 1) + 1 := by omega
      rw [h.depth, hone, BitVec.ofNat_add]
      exact add_sub_cancel_right _ _
    · change s.added + s.uncounted = s.taken + 1 + s.queue.length + 0
      omega
  · exact h

theorem step (h : Counted s) (a : Action π) (ha : s.InTurn a) : Counted (s.step a) := by
  cases a with
  | send msg => exact h.call rfl
  | offer msg => exact h.call rfl
  | go i => exact h.go ha
  | recv => exact h.recv ha
  | decrement => exact h.decrement
  | stop =>
    dsimp only [Queue.step]
    split
    · exact h
    · exact ⟨h.depth, h.net, h.uncounted, h.refused⟩

end Counted

/-- **The counter never passes zero, and a message is refused only when the queue is full or
nothing reads it**, in every run in which the writer takes nothing out while all that is queued has
still to be counted, and no offer reads the counter between the two steps of the writer. -/
theorem refused_only_when_full (l : List (Action π)) (h : Along step InTurn new l) :
    ((new : Queue π).run l).Sound := by
  have hc : Counted ((new : Queue π).run l) := h.preserves (fun _ a hs ha => hs.step a ha) .new
  exact ⟨hc.taken_le, hc.refused⟩

/-- A reply is put in and taken out before it is counted, and then a message is offered. -/
def overtaken : List (Action ℕ) :=
  [.send 0, .go 0, .recv, .decrement, .offer 1, .go 1]

/-- The counter is at its largest value, and an offer to an empty queue is refused. -/
theorem counter_wraps :
    let s := (new : Queue ℕ).run overtaken
    s.depth = BitVec.allOnes 64 ∧ s.refused = [{ queued := 0, alive := true }] ∧ ¬s.Sound := by
  refine ⟨by decide, by decide, fun hs => ?_⟩
  exact absurd hs.depth (by decide)

/-- A reply, and a message that is offered while the reply is written; then the reader goes. -/
def inTurn : List (Action ℕ) :=
  [.send 0, .go 0, .go 0, .recv, .decrement, .offer 1, .go 1, .go 1, .go 1, .stop, .offer 2, .go 2,
    .go 2]

theorem inTurn_sound :
    ((new : Queue ℕ).run inTurn).refused = [{ queued := 1, alive := false }] ∧
      ((new : Queue ℕ).run inTurn).Sound :=
  ⟨by decide, refused_only_when_full inTurn (by decide)⟩

end Queue

end Outbound

end Quorum
