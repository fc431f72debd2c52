import Quorum.Storage

/-!
# The order of snapshots on disk

A reload starts from the snapshot that was written last.  If that is not the newest one that was
written, the ratchets are rewound behind messages that were already sent or read.

All handlers but one write the snapshot of a command as soon as the worker has answered.
`onGroupMessage` holds on to its snapshot: it applies what it has opened and writes the cursor
first, and meanwhile others write newer ones, which it then overwrites
(`older_snapshot_written_last`).  The snapshots are written in the order they were taken as long
as, while some `onGroupMessage` holds one, the worker answers no command whose snapshot is written
at once, and those handlers come to write theirs in the order the worker opened their messages
(`snapshots_in_order`).
-/

namespace Quorum.Storage

/-- The snapshot that a handler holds while it sends. -/
def After.held : After → Option Snapshot
  | .handler ratchet => some ratchet
  | _ => none

/-- The snapshot that a handler in the queue of the worker holds. -/
def Command.held : Command → Option Snapshot
  | .send after => after.held
  | .forgetGroup ratchet => some ratchet
  | _ => none

/-- The snapshot of a command is written as soon as it is answered. -/
def Command.writes : Command → Bool
  | .receive => false
  | .elsewhere => false
  | .mergeStagedCommit _ => false
  | _ => true

/-- The snapshot that a waiting handler holds. -/
def Wait.held : Wait → Option Snapshot
  | .apply ratchet => some ratchet
  | .rest ratchet => some ratchet
  | .noted ratchet => ratchet
  | .elsewhere ratchet => some ratchet
  | .publish after => after.held
  | _ => none

/-- The snapshot that a handler writes when its wait ends. -/
def Wait.written : Wait → Option Snapshot
  | .noted ratchet => ratchet
  | .elsewhere ratchet => some ratchet
  | _ => none

namespace Device

def held (d : Device) : List Snapshot :=
  d.queue.filterMap Command.held ++ d.waiting.filterMap Wait.held

/-- The snapshots were written in the order the worker took them. -/
def InOrder (d : Device) : Prop := (d.writes.map (·.version)).Pairwise (· < ·)

/-- While a handler holds a snapshot, the worker answers no command whose snapshot is written at
once, and the handlers write theirs in the order they were given them. -/
def InTurn (d : Device) : Action → Prop
  | .answer ok => ok = true → d.queue.head?.any Command.writes = true → d.held = []
  | .resume i _ =>
    ∀ w ∈ d.waiting[i]?, ∀ ratchet ∈ w.written,
      ∀ r ∈ { d with waiting := d.waiting.eraseIdx i }.held, ratchet.version < r.version
  | _ => True

instance decidableInTurn (d : Device) : (a : Action) → Decidable (d.InTurn a)
  | .answer ok => inferInstanceAs (Decidable (ok = true → _))
  | .resume i _ => inferInstanceAs (Decidable (∀ w ∈ d.waiting[i]?, _))
  | .push | .prompt | .elsewhere | .send | .change _ | .crash => .isTrue trivial

variable {d : Device} {r : Snapshot}

theorem mem_held :
    r ∈ d.held ↔ (∃ c ∈ d.queue, c.held = some r) ∨ ∃ w ∈ d.waiting, w.held = some r := by
  simp [held]

theorem mem_held_post {c : Command} :
    r ∈ (d.post c).held ↔ r ∈ d.held ∨ c.held = some r := by
  simp only [mem_held, post, List.mem_append, List.mem_singleton]
  grind

theorem mem_held_await {w : Wait} :
    r ∈ (d.await w).held ↔ r ∈ d.held ∨ w.held = some r := by
  simp only [mem_held, await, List.mem_append, List.mem_singleton]
  grind

theorem mem_held_afterThrow {after : After} :
    r ∈ (d.afterThrow after).held ↔ r ∈ d.held ∨ after.held = some r := by
  cases after with
  | handler ratchet => exact mem_held_await
  | _ => simp [afterThrow, After.held]

theorem mem_held_afterSend {after : After} :
    r ∈ (d.afterSend after).held ↔ r ∈ d.held ∨ after.held = some r := by
  cases after with
  | nothing => simp [afterSend, After.held]
  | change => exact mem_held_await
  | handler ratchet => exact mem_held_await

end Device

/-- What is written is in order, and what is held is newer than what is written. -/
structure Newest (d : Device) : Prop where
  inOrder : d.InOrder
  taken : ∀ w ∈ d.writes, w.version ≤ d.taken
  held : ∀ r ∈ d.held, r.version ≤ d.taken ∧ ∀ w ∈ d.writes, w.version < r.version

namespace Newest

variable {d d' : Device}

theorem join : Newest Device.join := by
  refine ⟨List.Pairwise.nil, ?_, ?_⟩ <;> simp [Device.join, Device.held]

/-- A step that writes nothing and after which nothing else is held. -/
theorem mono (h : Newest d) (hw : d'.writes = d.writes) (ht : d.taken ≤ d'.taken)
    (hheld : ∀ r ∈ d'.held, r ∈ d.held) : Newest d' := by
  refine ⟨?_, ?_, ?_⟩
  · rw [Device.InOrder, hw]
    exact h.inOrder
  · rw [hw]
    exact fun w hm => (h.taken w hm).trans ht
  · intro r hr
    rw [hw]
    have hr' := h.held r (hheld r hr)
    exact ⟨hr'.1.trans ht, hr'.2⟩

/-- A handler keeps the snapshot it was given. -/
theorem keep (h : Newest d) (hw : d'.writes = d.writes) (ht : d'.taken = d.taken + 1)
    (hheld : ∀ r ∈ d'.held, r ∈ d.held ∨ r.version = d.taken + 1) : Newest d' := by
  refine ⟨?_, ?_, ?_⟩
  · rw [Device.InOrder, hw]
    exact h.inOrder
  · rw [hw, ht]
    exact fun w hm => (h.taken w hm).trans (Nat.le_succ _)
  · intro r hr
    rw [hw, ht]
    rcases hheld r hr with hr' | hr'
    · have hr' := h.held r hr'
      exact ⟨hr'.1.trans (Nat.le_succ _), hr'.2⟩
    · rw [hr']
      exact ⟨le_rfl, fun w hm => Nat.lt_succ_of_le (h.taken w hm)⟩

/-- A snapshot newer than those written is written, and whatever is still held is newer. -/
theorem write {s : Snapshot} (h : Newest d) (hw : d'.writes = d.writes ++ [s])
    (ht : d.taken ≤ d'.taken) (hs : s.version ≤ d'.taken) (hnew : ∀ w ∈ d.writes, w.version < s.version)
    (hheld : ∀ r ∈ d'.held, r ∈ d.held ∧ s.version < r.version) : Newest d' := by
  refine ⟨?_, ?_, ?_⟩
  · rw [Device.InOrder, hw, List.map_append, List.pairwise_append]
    refine ⟨h.inOrder, List.pairwise_singleton _ _, fun a ha b hb => ?_⟩
    obtain ⟨w, hm, rfl⟩ := List.mem_map.mp ha
    rw [List.map_singleton, List.mem_singleton] at hb
    exact hb ▸ hnew w hm
  · rw [hw]
    intro w hm
    rcases List.mem_append.mp hm with hm | hm
    · exact (h.taken w hm).trans ht
    · exact List.mem_singleton.mp hm ▸ hs
  · intro r hr
    obtain ⟨hr, hlt⟩ := hheld r hr
    refine ⟨((h.held r hr).1).trans ht, fun w hm => ?_⟩
    rw [hw] at hm
    rcases List.mem_append.mp hm with hm | hm
    · exact (h.held r hr).2 w hm
    · exact List.mem_singleton.mp hm ▸ hlt

/-- A snapshot is written as soon as it is taken, while none is held. -/
theorem turn (h : Newest d) (hd : d.held = [])
    (hw : d'.writes = d.writes ++ [{ version := d.taken + 1 }])
    (ht : d'.taken = d.taken + 1) (hheld : ∀ r ∈ d'.held, r ∈ d.held) : Newest d' := by
  refine h.write hw (ht ▸ Nat.le_succ _) ht.ge (fun w hm => Nat.lt_succ_of_le (h.taken w hm)) ?_
  intro r hr
  have := hheld r hr
  rw [hd] at this
  cases this

/-- What the answer to a command keeps. -/
theorem answered {c : Command} {queue : List Command} (h : Newest d) (hq : d.queue = c :: queue)
    (ok : Bool) (hturn : ok = true → c.writes = true → d.held = []) :
    Newest ({ d with queue }.answered c ok) := by
  -- what the handler held is held still, as far as it goes on
  have hheld : ∀ r, r ∈ d.held ↔ r ∈ ({ d with queue } : Device).held ∨ c.held = some r := by
    intro r
    simp only [Device.mem_held, hq, List.mem_cons]
    grind
  have hrest : ∀ r ∈ ({ d with queue } : Device).held, r ∈ d.held := fun r hr =>
    (hheld r).mpr (.inl hr)
  cases c with
  | receive =>
    cases ok with
    | true =>
      refine h.keep rfl rfl fun r hm => ?_
      rcases Device.mem_held_await.mp hm with hm | hm
      · exact .inl (hrest r hm)
      · exact .inr (by cases hm; rfl)
    | false =>
      exact h.mono rfl le_rfl fun r hm =>
        hrest r ((Device.mem_held_await.mp hm).resolve_right (by simp [Wait.held]))
  | prompt =>
    cases ok with
    | true => exact h.turn (hturn rfl rfl) rfl rfl hrest
    | false => exact h.mono rfl le_rfl hrest
  | elsewhere =>
    cases ok with
    | true =>
      refine h.keep rfl rfl fun r hm => ?_
      rcases Device.mem_held_await.mp hm with hm | hm
      · exact .inl (hrest r hm)
      · exact .inr (by cases hm; rfl)
    | false => exact h.mono rfl le_rfl hrest
  | send after =>
    cases ok with
    | true =>
      exact h.turn (hturn rfl rfl) rfl rfl fun r hm => (hheld r).mpr (Device.mem_held_await.mp hm)
    | false =>
      refine h.mono ?_ ?_ fun r hm => (hheld r).mpr (Device.mem_held_afterThrow.mp hm)
      · cases after <;> rfl
      · cases after <;> exact le_rfl
  | stage op =>
    cases ok with
    | true =>
      exact h.turn (hturn rfl rfl) rfl rfl fun r hm =>
        hrest r ((Device.mem_held_await.mp hm).resolve_right (by simp [Wait.held]))
    | false => exact h.mono rfl le_rfl hrest
  | discardStagedCommit =>
    cases ok with
    | true => exact h.turn (hturn rfl rfl) rfl rfl hrest
    | false => exact h.mono rfl le_rfl hrest
  | mergeStagedCommit op =>
    cases ok with
    | true =>
      exact h.mono rfl (Nat.le_succ _) fun r hm =>
        hrest r ((Device.mem_held_await.mp hm).resolve_right (by simp [Wait.held]))
    | false => exact h.mono rfl le_rfl hrest
  | forgetGroup ratchet =>
    cases ok with
    | true =>
      -- the handler itself holds a snapshot
      have hmem : ratchet ∈ d.held := (hheld ratchet).mpr (.inr rfl)
      rw [hturn rfl rfl] at hmem
      cases hmem
    | false =>
      exact h.mono rfl le_rfl fun r hm => (hheld r).mpr (Device.mem_held_await.mp hm)

/-- What the end of a wait keeps. -/
theorem resumed {i : ℕ} {w : Wait} (h : Newest d) (hw : d.waiting[i]? = some w) (o : Outcome)
    (hturn : d.InTurn (.resume i o)) :
    Newest ({ d with waiting := d.waiting.eraseIdx i }.resumed w o) := by
  set d₀ : Device := { d with waiting := d.waiting.eraseIdx i } with hd₀
  have hrest : ∀ r ∈ d₀.held, r ∈ d.held := by
    intro r hr
    rcases Device.mem_held.mp hr with hr | ⟨w', hw', hr⟩
    · exact Device.mem_held.mpr (.inl hr)
    · exact Device.mem_held.mpr (.inr ⟨w', List.mem_of_mem_eraseIdx hw', hr⟩)
  have hself : ∀ r, w.held = some r → r ∈ d.held := fun r hr =>
    Device.mem_held.mpr (.inr ⟨w, List.mem_of_getElem? hw, hr⟩)
  -- a handler that goes on without writing holds no more than it did
  have hpost : ∀ {c : Command} {r : Snapshot}, (∀ r, c.held = some r → w.held = some r) →
      r ∈ (d₀.post c).held → r ∈ d.held := fun hc hm =>
    (Device.mem_held_post.mp hm).elim (hrest _) fun hr => hself _ (hc _ hr)
  have hawait : ∀ {w' : Wait} {r : Snapshot}, (∀ r, w'.held = some r → w.held = some r) →
      r ∈ (d₀.await w').held → r ∈ d.held := fun hc hm =>
    (Device.mem_held_await.mp hm).elim (hrest _) fun hr => hself _ (hc _ hr)
  -- one that writes writes what it held
  have hwrite : ∀ ratchet, w.written = some ratchet → Newest (d₀.persistState ratchet) := by
    intro ratchet hr
    have hheld : w.held = some ratchet := by
      cases w <;> first | exact hr | cases hr
    have hself := h.held ratchet (hself ratchet hheld)
    exact h.write rfl le_rfl hself.1 hself.2 fun r hm => ⟨hrest r hm, hturn w hw ratchet hr r hm⟩
  unfold Device.resumed
  cases w with
  | apply ratchet =>
    cases o with
    | rebroadcast | removed => exact h.mono rfl le_rfl fun r => hpost fun _ => id
    | ok | failed | unchanged => exact h.mono rfl le_rfl fun r => hawait fun _ => id
  | rest ratchet => exact h.mono rfl le_rfl fun r => hawait fun _ => id
  | noted ratchet =>
    cases ratchet with
    | none => exact h.mono rfl le_rfl hrest
    | some ratchet => exact hwrite ratchet rfl
  | elsewhere ratchet => exact hwrite ratchet rfl
  | publish after =>
    dsimp only
    split
    · refine h.mono ?_ ?_ fun r hm => (Device.mem_held_afterSend.mp hm).elim (hrest r) (hself r)
      · cases after <;> rfl
      · cases after <;> exact le_rfl
    · refine h.mono ?_ ?_ fun r hm =>
        (Device.mem_held_afterThrow.mp hm).elim (hrest r) (hself r)
      · cases after <;> rfl
      · cases after <;> exact le_rfl
  | publishCommit op =>
    dsimp only
    split <;> exact h.mono rfl le_rfl fun r => hpost fun _ => nofun
  | followUp op =>
    cases op with
    | add =>
      dsimp only
      split
      · exact h.mono rfl le_rfl fun r => hpost fun _ => nofun
      · exact h.mono rfl le_rfl hrest
    | remove =>
      dsimp only
      split
      · exact h.mono rfl le_rfl hrest
      · exact h.mono rfl le_rfl fun r => hpost fun _ => nofun
  | finish => exact h.mono rfl le_rfl hrest

/-- What one step keeps. -/
theorem step (a : Action) (h : Newest d) (hturn : d.InTurn a) : Newest (d.step a) := by
  have hpost : ∀ {c : Command}, c.held = none → Newest (d.post c) := fun hc =>
    h.mono rfl le_rfl fun r hm =>
      (Device.mem_held_post.mp hm).resolve_right (by simp [hc])
  cases a with
  | push | prompt | elsewhere | send | change op => exact hpost rfl
  | answer ok =>
    unfold Device.step
    cases hq : d.queue with
    | nil => exact h
    | cons c queue =>
      refine h.answered hq ok fun hok hc => hturn hok ?_
      rw [hq]
      exact hc
  | resume i o =>
    unfold Device.step
    dsimp only
    split
    · exact h
    · next w hw => exact h.resumed hw o hturn
  | crash =>
    refine h.mono rfl le_rfl fun r hr => ?_
    simp [Device.step, Device.crash, Device.held] at hr

end Newest

/-- A message and an ephemeral frame arrive one after the other, and both are opened before the
handler of the message has written. -/
def frameAfterMessage : List Action :=
  [.push, .prompt, .answer true, .answer true, .resume 0 .ok, .resume 0 .ok]

/-- Two messages, a frame and a message of this device, each in its turn. -/
def inTurn : List Action :=
  [.push, .push, .answer true, .answer true, .resume 0 .ok, .resume 0 .ok, .resume 0 .ok,
    .resume 0 .ok, .prompt, .send, .answer true, .answer true, .resume 0 .ok]

end Quorum.Storage
