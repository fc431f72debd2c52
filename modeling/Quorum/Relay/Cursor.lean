import Quorum.Order.Along

/-!
# The cursor of a subscription

A device keeps the number of the last log entry it has dealt with (`lastSeq`) and subscribes from
there when it connects.  The relay answers with everything newer, and pushes what others send from
then on.  A subscriber whose queue is full is dropped (`offer`) while its connection stays open;
the comment there calls that lossless, since the client will subscribe from its last number.

The device also moves its cursor to the number of what it sends itself.  That number says nothing
of what others sent before it, unless the relay has pushed all of it.  A device that sends while it
is not subscribed, because it was dropped or has only just connected, passes over what it was never
handed (`unsubscribed_sender_loses`).  One that sends only while it is subscribed never does
(`handed_below_cursor`).

One connection carries pushed entries and answers in one queue, in the order in which the relay
put them there.  A group's entries are appended and pushed under one lock, so every execution is a
sequence of the steps below.
-/

namespace Quorum

namespace Cursor

/-! ### The relay and the device -/

inductive Sender
  | me
  | other
deriving DecidableEq

/-- What the relay puts into the queue of a connection. -/
inductive Frame
  | msg (seq : ℕ)
  | ack (seq : ℕ)
  /-- Anything else: other groups, Welcomes, answers to other requests. -/
  | unrelated
deriving DecidableEq

inductive Request
  | send
  | subscribe (after : ℕ)
deriving DecidableEq

/-- The most that is pushed ahead of a connection (`MAX_QUEUE`). -/
def maxQueue : ℕ := 512

/-- One device, its connection, and the log of the group.  Entries are numbered from 1. -/
structure Link where
  log : List Sender
  /-- The relay pushes what others send. -/
  subscribed : Bool
  queue : List Frame
  connected : Bool
  requests : List Request
  lastSeq : ℕ
  /-- What was handed to `onGroupMessage`. -/
  handed : List ℕ
deriving DecidableEq

inductive Action
  | otherSends
  /-- An entry of the device's own that it never hears of, from a connection that is gone or from
  another device of the account. -/
  | unheard
  | traffic
  | send
  | subscribe
  /-- The relay handles the next request. -/
  | handle
  /-- The device deals with the next frame.  The answer to a request may come after the request has
  timed out. -/
  | receive (inTime : Bool)
  | disconnect
  | connect
deriving DecidableEq

namespace Link

/-- `messages_after(group, after)`. -/
def backlog (s : Link) (after : ℕ) : List Frame :=
  (List.range' (after + 1) (s.log.length - after)).map .msg

/-- Append an entry of somebody else and push it, if there is room (`offer`). -/
def otherSends (s : Link) : Link :=
  let log := s.log ++ [.other]
  if s.subscribed then
    if s.queue.length < maxQueue then { s with log, queue := s.queue ++ [.msg log.length] }
    else { s with log, subscribed := false }
  else { s with log }

/-- The relay handles a request.  Its own answers are queued without a bound. -/
def handle (s : Link) : Link :=
  match s.requests with
  | [] => s
  | .send :: requests =>
    let log := s.log ++ [.me]
    { s with log, queue := s.queue ++ [.ack log.length], requests }
  | .subscribe after :: requests =>
    { s with
      subscribed := true
      queue := s.queue ++ .unrelated :: s.backlog after
      requests }

/-- `record.lastSeq = Math.max(record.lastSeq, seq)`. -/
def moveTo (s : Link) (seq : ℕ) : Link := { s with lastSeq := max s.lastSeq seq }

/-- The device deals with the next frame: an entry goes to `onGroupMessage`, an answer to
`sendContent`. -/
def receive (s : Link) (inTime : Bool) : Link :=
  match s.queue with
  | [] => s
  | .msg seq :: queue => { s with queue, handed := s.handed ++ [seq] }.moveTo seq
  | .ack seq :: queue => if inTime then { s with queue }.moveTo seq else { s with queue }
  | .unrelated :: queue => { s with queue }

def step (s : Link) : Action → Link
  | .otherSends => s.otherSends
  | .unheard => { s with log := s.log ++ [.me] }
  | .traffic => if s.connected then { s with queue := s.queue ++ [.unrelated] } else s
  | .send => if s.connected then { s with requests := s.requests ++ [.send] } else s
  | .subscribe =>
    if s.connected then { s with requests := s.requests ++ [.subscribe s.lastSeq] } else s
  | .handle => s.handle
  | .receive inTime => s.receive inTime
  | .disconnect =>
    { s with subscribed := false, queue := [], connected := false, requests := [] }
  | .connect => { s with connected := true }

def run (s : Link) (actions : List Action) : Link := actions.foldl step s

/-- A device that joins at the end of a log: its cursor is the `after` of its Welcome. -/
def join (log : List Sender) : Link where
  log
  subscribed := false
  queue := []
  connected := false
  requests := []
  lastSeq := log.length
  handed := []

/-- An entry that somebody else sent after the device joined. -/
def Owed (s : Link) (joined k : ℕ) : Prop := joined < k ∧ s.log[k - 1]? = some .other

instance (s : Link) (joined k : ℕ) : Decidable (s.Owed joined k) := inferInstanceAs (Decidable (_ ∧ _))

/-- Everything owed up to the cursor was handed over. -/
def Sound (s : Link) (joined : ℕ) : Prop := ∀ k, s.Owed joined k → k ≤ s.lastSeq → k ∈ s.handed

/-- The relay handles a message of the device only while it is subscribed. -/
def Safe (s : Link) : Action → Prop
  | .handle => s.requests.head? = some .send → s.subscribed = true
  | _ => True

end Link

/-! ### Frames on their way -/

namespace Frame

/-- The number to which a frame moves the cursor. -/
def top : Frame → ℕ
  | .msg seq => seq
  | .ack seq => seq
  | .unrelated => 0

def entries (queue : List Frame) : List ℕ :=
  queue.filterMap fun
    | .msg seq => some seq
    | _ => none

end Frame

/-- Whatever a frame of the queue moves the cursor to, what is owed up to there is handed over by
then. -/
def Covered (owed : ℕ → Prop) : List ℕ → List Frame → Prop
  | _, [] => True
  | handed, f :: queue =>
    (∀ k, owed k → k ≤ f.top → k ∈ handed ++ Frame.entries [f]) ∧
      Covered owed (handed ++ Frame.entries [f]) queue

section

variable {owed owed' : ℕ → Prop} {handed : List ℕ} {queue queue' : List Frame}

theorem Frame.entries_cons (f : Frame) (queue : List Frame) :
    Frame.entries (f :: queue) = Frame.entries [f] ++ Frame.entries queue := by
  cases f <;> rfl

theorem Frame.entries_append (queue queue' : List Frame) :
    Frame.entries (queue ++ queue') = Frame.entries queue ++ Frame.entries queue' :=
  List.filterMap_append ..

theorem Frame.entries_map_msg (l : List ℕ) : Frame.entries (l.map .msg) = l := by
  simp [Frame.entries, List.filterMap_map]

theorem covered_append :
    Covered owed handed (queue ++ queue') ↔
      Covered owed handed queue ∧ Covered owed (handed ++ Frame.entries queue) queue' := by
  induction queue generalizing handed with
  | nil => simp [Covered, Frame.entries]
  | cons f queue ih =>
    rw [Frame.entries_cons, ← List.append_assoc]
    change _ ∧ Covered owed _ (queue ++ queue') ↔ (_ ∧ _) ∧ _
    rw [ih, and_assoc]

/-- A frame at the end of a queue. -/
theorem covered_concat {f : Frame} (h : Covered owed handed queue)
    (hf : ∀ k, owed k → k ≤ f.top → k ∈ handed ++ Frame.entries queue ++ Frame.entries [f]) :
    Covered owed handed (queue ++ [f]) :=
  covered_append.mpr ⟨h, hf, trivial⟩

/-- What is owed may change past the frames of the queue. -/
theorem Covered.congr {bound : ℕ} (h : Covered owed handed queue)
    (hbound : ∀ f ∈ queue, f.top ≤ bound) (howed : ∀ k ≤ bound, owed' k → owed k) :
    Covered owed' handed queue := by
  induction queue generalizing handed with
  | nil => trivial
  | cons f queue ih =>
    have hf := hbound f (List.mem_cons_self ..)
    refine ⟨fun k hk hle => h.1 k (howed k (hle.trans hf) hk) hle, ?_⟩
    exact ih h.2 fun f' hf' => hbound f' (List.mem_cons_of_mem _ hf')

/-- Entries that follow on what is handed over. -/
theorem covered_range (after count : ℕ) (h : ∀ k, owed k → k ≤ after → k ∈ handed) :
    Covered owed handed ((List.range' (after + 1) count).map .msg) := by
  induction count generalizing after handed with
  | zero => trivial
  | succ count ih =>
    have hnext : ∀ k, owed k → k ≤ after + 1 → k ∈ handed ++ [after + 1] := by
      intro k hk hle
      rw [List.mem_append, List.mem_singleton]
      rcases Nat.lt_or_eq_of_le hle with hlt | heq
      · exact .inl (h k hk (Nat.lt_succ_iff.mp hlt))
      · exact .inr heq
    rw [List.range'_succ, List.map_cons]
    exact ⟨hnext, ih (after + 1) hnext⟩

end

/-! ### The invariant -/

/-- What is owed up to the cursor is handed over, what is owed up to any frame of the queue will be
by then, and while the relay pushes, everything owed is handed over or in the queue. -/
structure LinkOk (joined : ℕ) (s : Link) : Prop where
  bounded : ∀ f ∈ s.queue, f.top ≤ s.log.length
  lastSeq_le : s.lastSeq ≤ s.log.length
  sound : s.Sound joined
  covered : Covered (s.Owed joined) s.handed s.queue
  live : s.subscribed = true → ∀ k, s.Owed joined k → k ∈ s.handed ++ Frame.entries s.queue
  requests : ∀ after, .subscribe after ∈ s.requests → after ≤ s.lastSeq

section

variable {joined : ℕ} {s : Link}

/-- What is owed after one more entry. -/
theorem Link.owed_append {sender : Sender} {s' : Link} {k : ℕ}
    (hlog : s'.log = s.log ++ [sender]) (h : s'.Owed joined k) :
    s.Owed joined k ∨ k = s.log.length + 1 ∧ sender = .other := by
  obtain ⟨hk, hget⟩ := h
  rw [hlog, List.getElem?_append] at hget
  split at hget
  · exact .inl ⟨hk, hget⟩
  · rw [List.getElem?_singleton] at hget
    split at hget
    · exact .inr ⟨by omega, Option.some_injective _ hget⟩
    · cases hget

/-- The log grows by an entry that is not pushed: one of the device's own, or one of somebody else
while the relay does not push. -/
theorem LinkOk.append (h : LinkOk joined s) {sender : Sender} {subscribed : Bool}
    (hsub : subscribed = true → s.subscribed = true ∧ sender = .me) :
    LinkOk joined { s with log := s.log ++ [sender], subscribed } := by
  have hlen : (s.log ++ [sender]).length = s.log.length + 1 := by simp
  have howed : ∀ k ≤ s.log.length,
      Link.Owed { s with log := s.log ++ [sender], subscribed } joined k → s.Owed joined k := by
    intro k hk hkowed
    exact (Link.owed_append rfl hkowed).resolve_right fun hnew => by omega
  refine ⟨fun f hf => ?_, ?_, fun k hk hle => ?_, h.covered.congr h.bounded howed, ?_, h.requests⟩
  · exact (h.bounded f hf).trans (hlen ▸ Nat.le_succ _)
  · exact h.lastSeq_le.trans (hlen ▸ Nat.le_succ _)
  · exact h.sound k (howed k (hle.trans h.lastSeq_le) hk) hle
  · intro hs k hk
    obtain ⟨hs', hme⟩ := hsub hs
    refine h.live hs' k ((Link.owed_append rfl hk).resolve_right fun hnew => ?_)
    cases hme.symm.trans hnew.2

/-- A frame is queued that moves the cursor no further than what will be handed over. -/
theorem LinkOk.push (h : LinkOk joined s) {f : Frame} (hf : f.top ≤ s.log.length)
    (hcover : ∀ k, s.Owed joined k → k ≤ f.top →
      k ∈ s.handed ++ Frame.entries s.queue ++ Frame.entries [f]) :
    LinkOk joined { s with queue := s.queue ++ [f] } := by
  refine ⟨?_, h.lastSeq_le, h.sound, covered_concat h.covered hcover, fun hs k hk => ?_, h.requests⟩
  · intro f' hf'
    rcases List.mem_append.mp hf' with hold | hnew
    · exact h.bounded f' hold
    · rwa [List.mem_singleton.mp hnew]
  · have hlive := h.live hs k hk
    change k ∈ s.handed ++ Frame.entries (s.queue ++ [f])
    rw [Frame.entries_append, ← List.append_assoc]
    exact List.mem_append_left _ hlive

theorem LinkOk.join (log : List Sender) : LinkOk log.length (Link.join log) where
  bounded f hf := by cases hf
  lastSeq_le := le_rfl
  sound k hk hle := absurd hk.1 (Nat.not_lt.mpr hle)
  covered := trivial
  live h := by cases h
  requests after h := by cases h

/-! ### Steps and runs -/

/-- Somebody else sends, and the entry is pushed, dropped with the subscription, or not pushed. -/
theorem LinkOk.otherSends (h : LinkOk joined s) : LinkOk joined s.otherSends := by
  unfold Link.otherSends
  split
  · rename_i hs
    have hquiet : LinkOk joined { s with log := s.log ++ [.other], subscribed := false } :=
      h.append nofun
    split
    · -- the new entry is the only one owed that is not handed over or in the queue yet
      have howed : ∀ k, Link.Owed { s with log := s.log ++ [.other], subscribed := false } joined k →
          k ∈ s.handed ++ Frame.entries s.queue ++ [(s.log ++ [Sender.other]).length] := by
        intro k hk
        rw [List.mem_append, List.mem_singleton]
        refine (Link.owed_append rfl hk).imp (h.live hs k) fun hnew => ?_
        rw [hnew.1]
        simp
      have hpushed := hquiet.push (f := .msg (s.log ++ [Sender.other]).length) le_rfl
        fun k hk _ => howed k hk
      refine ⟨hpushed.bounded, hpushed.lastSeq_le, hpushed.sound, hpushed.covered, fun _ k hk => ?_,
        hpushed.requests⟩
      change k ∈ s.handed ++ Frame.entries (s.queue ++ [.msg _])
      rw [Frame.entries_append, ← List.append_assoc]
      exact howed k hk
    · exact hquiet
  · rename_i hs
    exact h.append fun hs' => absurd hs' hs

theorem LinkOk.pushRequest (h : LinkOk joined s) {r : Request}
    (hr : ∀ after, r = .subscribe after → after ≤ s.lastSeq) :
    LinkOk joined { s with requests := s.requests ++ [r] } := by
  refine { h with requests := fun after hafter => ?_ }
  rcases List.mem_append.mp hafter with hold | hnew
  · exact h.requests after hold
  · exact hr after (List.mem_singleton.mp hnew).symm

theorem LinkOk.dropRequest (h : LinkOk joined s) {r : Request} {requests : List Request}
    (hr : s.requests = r :: requests) : LinkOk joined { s with requests } :=
  { h with
    requests := fun after hafter => h.requests after (by rw [hr]; exact List.mem_cons_of_mem _ hafter) }

/-- The relay handles a request; a message of the device only while it is subscribed. -/
theorem LinkOk.handle (h : LinkOk joined s)
    (hsafe : s.requests.head? = some .send → s.subscribed = true) : LinkOk joined s.handle := by
  unfold Link.handle
  split
  · exact h
  · -- the ack passes the cursor over what was queued before it
    rename_i requests hr
    have hs : s.subscribed = true := hsafe (by rw [hr]; rfl)
    have hgrown : LinkOk joined { s with log := s.log ++ [.me], requests } :=
      (h.dropRequest hr).append fun hs => ⟨hs, rfl⟩
    refine hgrown.push (f := .ack (s.log ++ [Sender.me]).length) le_rfl fun k hk _ => ?_
    exact List.mem_append_left _ (hgrown.live hs k hk)
  · -- the backlog starts where the cursor was, or below
    rename_i after requests hr
    have hafter : after ≤ s.lastSeq := h.requests after (by rw [hr]; exact List.mem_cons_self ..)
    have hlen : after ≤ s.log.length := hafter.trans h.lastSeq_le
    have hhanded : ∀ k, s.Owed joined k → k ≤ after → k ∈ s.handed :=
      fun k hk hle => h.sound k hk (hle.trans hafter)
    refine ⟨?_, h.lastSeq_le, h.sound, covered_append.mpr ⟨h.covered, ?_, ?_⟩, fun _ k hk => ?_,
      (h.dropRequest hr).requests⟩
    · intro f hf
      rcases List.mem_append.mp hf with hold | hnew
      · exact h.bounded f hold
      · rcases List.mem_cons.mp hnew with rfl | hnew
        · exact Nat.zero_le _
        · obtain ⟨seq, hseq, rfl⟩ := List.mem_map.mp hnew
          have hlt := (List.mem_range'_1.mp hseq).2
          change seq ≤ s.log.length
          omega
    · exact fun k hk hle => absurd hk.1 (by change k ≤ 0 at hle; omega)
    · refine covered_range after _ fun k hk hle => ?_
      exact List.mem_append_left _ (List.mem_append_left _ (hhanded k hk hle))
    · change k ∈ s.handed ++ Frame.entries (s.queue ++ .unrelated :: s.backlog after)
      rw [Frame.entries_append, Frame.entries_cons, Link.backlog, Frame.entries_map_msg]
      by_cases hle : k ≤ after
      · exact List.mem_append_left _ (hhanded k hk hle)
      · have hk' := (List.getElem?_eq_some_iff.mp hk.2).1
        have hmem : k ∈ List.range' (after + 1) (s.log.length - after) := by
          have hpos := hk.1
          rw [List.mem_range'_1]
          change k - 1 < s.log.length at hk'
          omega
        exact List.mem_append_right _ (List.mem_append_right _ (List.mem_append_right _ hmem))

/-- A frame is taken from the queue, and the cursor moves to its number or stays. -/
theorem LinkOk.pop (h : LinkOk joined s) {f : Frame} {queue : List Frame}
    (hq : s.queue = f :: queue) {lastSeq : ℕ}
    (hseq : lastSeq = s.lastSeq ∨ lastSeq = max s.lastSeq f.top) :
    LinkOk joined { s with queue, lastSeq, handed := s.handed ++ Frame.entries [f] } := by
  have hcovered := h.covered
  have hbounded := h.bounded
  rw [hq] at hcovered hbounded
  have hle : s.lastSeq ≤ lastSeq := by
    rcases hseq with rfl | rfl
    · exact le_rfl
    · exact le_max_left ..
  refine ⟨?_, ?_, fun k hk hk' => ?_, hcovered.2, fun hs k hk => ?_, ?_⟩
  · exact fun f' hf' => hbounded f' (List.mem_cons_of_mem _ hf')
  · rcases hseq with rfl | rfl
    · exact h.lastSeq_le
    · exact max_le h.lastSeq_le (hbounded f (List.mem_cons_self ..))
  · have hcase : k ≤ s.lastSeq ∨ k ≤ f.top := by
      rcases hseq with rfl | rfl
      · exact .inl hk'
      · exact le_max_iff.mp hk'
    rcases hcase with hold | hnew
    · exact List.mem_append_left _ (h.sound k hk hold)
    · exact hcovered.1 k hk hnew
  · have hlive := h.live hs k hk
    rw [hq, Frame.entries_cons, ← List.append_assoc] at hlive
    exact hlive
  · exact fun after hafter => (h.requests after hafter).trans hle

/-- The device deals with a frame. -/
theorem LinkOk.receive (h : LinkOk joined s) (inTime : Bool) : LinkOk joined (s.receive inTime) := by
  unfold Link.receive
  split
  · exact h
  · rename_i seq queue hq
    exact h.pop hq (.inr rfl)
  · rename_i seq queue hq
    have hhanded : s.handed ++ Frame.entries [.ack seq] = s.handed := List.append_nil _
    split
    · have hpop := h.pop hq (.inr rfl)
      rw [hhanded] at hpop
      exact hpop
    · have hpop := h.pop hq (.inl rfl)
      rw [hhanded] at hpop
      exact hpop
  · rename_i queue hq
    have hhanded : s.handed ++ Frame.entries [.unrelated] = s.handed := List.append_nil _
    have hpop := h.pop hq (.inl rfl)
    rw [hhanded] at hpop
    exact hpop

/-- **A safe step keeps the cursor sound.** -/
theorem LinkOk.step (h : LinkOk joined s) {a : Action} (hsafe : s.Safe a) :
    LinkOk joined (s.step a) := by
  cases a with
  | otherSends => exact h.otherSends
  | unheard => exact h.append fun hs => ⟨hs, rfl⟩
  | traffic =>
    unfold Link.step
    dsimp only
    split
    · refine h.push (f := .unrelated) (Nat.zero_le _) fun k hk hle => ?_
      exact absurd hk.1 (by change k ≤ 0 at hle; omega)
    · exact h
  | send =>
    unfold Link.step
    dsimp only
    split
    · exact h.pushRequest fun after hr => by cases hr
    · exact h
  | subscribe =>
    unfold Link.step
    dsimp only
    split
    · refine h.pushRequest fun after hr => ?_
      cases hr
      exact le_rfl
    · exact h
  | handle => exact h.handle hsafe
  | receive inTime => exact h.receive inTime
  | disconnect =>
    exact ⟨nofun, h.lastSeq_le, h.sound, trivial, nofun, nofun⟩
  | connect => exact { h with }

/-- **Everything that others sent up to the cursor was handed over**, in every run in which the
device sends only while it is subscribed. -/
theorem handed_below_cursor (log : List Sender) {actions : List Action}
    (hsafe : Along Link.step Link.Safe (Link.join log) actions) :
    ((Link.join log).run actions).Sound log.length :=
  (Along.preserves (fun _ _ h hsafe => LinkOk.step h hsafe) hsafe (LinkOk.join log)).sound

end

/-! ### What is passed over -/

/-- A device that joins an empty circle connects, and sends before it subscribes. -/
def sendsFirst : List Action :=
  [.connect, .otherSends, .send, .handle, .receive true, .subscribe, .handle]

/-- The cursor has passed the entry of somebody else, and what the device subscribes for begins
after it. -/
theorem unsubscribed_sender_loses :
    ¬((Link.join []).run sendsFirst).Sound 0 ∧
      ((Link.join []).run sendsFirst).queue = [.unrelated] := by
  refine ⟨fun h => ?_, by decide⟩
  exact absurd (h 1 (by decide) (by decide)) (by decide)

instance (s : Link) (a : Action) : Decidable (s.Safe a) :=
  match a with
  | .handle => inferInstanceAs (Decidable (_ → _))
  | .otherSends | .unheard | .traffic | .send | .subscribe | .receive _ | .disconnect | .connect =>
    .isTrue trivial

/-- A device that sends while it is subscribed, and subscribes anew after its connection broke. -/
def resubscribing : List Action :=
  [.connect, .subscribe, .handle, .receive true, .otherSends, .send, .handle, .otherSends,
    .receive true, .disconnect, .otherSends, .connect, .subscribe, .handle, .receive true,
    .receive true]

/-- Its cursor is sound. -/
theorem resubscribing_sound : ((Link.join [.other]).run resubscribing).Sound 1 :=
  handed_below_cursor [.other] (by decide +kernel)

end Cursor

end Quorum
