import Quorum.Js.Except
import Quorum.Log

/-!
# Replaying mutations, line by line

A mutation changes at most one line, the one it points at (`target`), and what it does to that
line (`mutate`) depends on no other.  So a replay of the whole log is, on each line separately, a
replay of the mutations that point at it (`replay_line`), and it returns exactly when every
mutation says where it points and every line's own replay returns (`replay_ok_iff`).
-/

namespace Quorum

open Js

/-! ### What a mutation points at and what it does there -/

/-- `entry.k === k`. -/
def hasKind (k : Str) (entry : Value) : Bool := (entry.get (lit "k")).strictEq (.str k)

/-- The identity of the line that a mutation points at. -/
def target (entry : Value) : Except Error (Option Str) :=
  if hasKind (lit "edit") entry || hasKind (lit "del") entry then (ownTarget entry).map some
  else if hasKind (lit "react") entry then (reactTarget entry).map some
  else .ok none

/-- What a mutation makes of the line it points at. -/
def mutate (entry : Value) (m : Message) : Except Error Message :=
  if hasKind (lit "edit") entry then editMessage m entry
  else if hasKind (lit "del") entry then .ok (tombstone m)
  else reactMessage m entry

theorem applyMutation_eq (messages : Dict Str Message) (entry : Value) :
    applyMutation messages entry = target entry >>= fun t =>
      match t with
      | none => .ok messages
      | some id => rewrite messages id (mutate entry) := by
  unfold applyMutation target mutate applyEdit applyDelete applyReaction
  change (if hasKind (lit "edit") entry then _ else if hasKind (lit "del") entry then _
    else if hasKind (lit "react") entry then _ else _) = _
  cases hasKind (lit "edit") entry <;> cases hasKind (lit "del") entry <;>
    cases hasKind (lit "react") entry <;> cases ownTarget entry <;> cases reactTarget entry <;> rfl

/-- What a mutation makes of the line under an identity. -/
def touch (id : Str) (m : Message) (entry : Value) : Except Error Message := do
  let t ← target entry
  if t = some id then mutate entry m else return m

/-- A replay of mutations over the line under an identity. -/
def replayLine (id : Str) (entries : List Value) (m : Message) : Except Error Message :=
  entries.foldlM (touch id) m

variable {id : Str} {entry : Value} {entries : List Value} {m m' : Message} {log : ChannelLog}
  {shown : Dict Str Message}

theorem replayLine_cons {r : Message} :
    replayLine id (entry :: entries) m = .ok r ↔
      ∃ m', touch id m entry = .ok m' ∧ replayLine id entries m' = .ok r :=
  foldlM_cons_eq_ok

theorem touch_of_target {t : Option Str} (h : target entry = .ok t) :
    touch id m entry = if t = some id then mutate entry m else .ok m := by
  rw [touch, h]
  rfl

/-- Mutations that point elsewhere are nothing to a line. -/
theorem replayLine_filter_of_dropped {keep : Value → Bool}
    (htarget : ∀ entry ∈ entries, ∃ t, target entry = .ok t)
    (hdropped : ∀ entry ∈ entries, keep entry = false → target entry ≠ .ok (some id)) (m : Message) :
    replayLine id (entries.filter keep) m = replayLine id entries m := by
  induction entries generalizing m with
  | nil => rfl
  | cons entry entries ih =>
    rw [List.forall_mem_cons] at htarget hdropped
    have ih := ih htarget.2 hdropped.2
    cases hkeep : keep entry with
    | true =>
      rw [List.filter_cons_of_pos hkeep]
      unfold replayLine at ih ⊢
      rw [List.foldlM_cons, List.foldlM_cons]
      exact congrArg _ (funext fun m' => ih m')
    | false =>
      obtain ⟨t, ht⟩ := htarget.1
      have hne : t ≠ some id := fun heq => hdropped.1 hkeep (heq ▸ ht)
      rw [List.filter_cons_of_neg (by rw [hkeep]; exact Bool.false_ne_true), ih m]
      unfold replayLine
      rw [List.foldlM_cons, touch_of_target ht, if_neg hne]
      rfl

theorem hasKind_iff {k : Str} :
    hasKind k entry = true ↔ entry.get (lit "k") = .str k := Value.strictEq_str

/-- What a mutation can do to a line: nothing, or what its kind does if it points there. -/
theorem touch_cases (h : touch id m entry = .ok m') :
    (target entry ≠ .ok (some id) ∧ m' = m) ∨
      (hasKind (lit "edit") entry = true ∧ ownTarget entry = .ok id ∧
        editMessage m entry = .ok m') ∨
      (hasKind (lit "del") entry = true ∧ ownTarget entry = .ok id ∧ m' = tombstone m) ∨
      (hasKind (lit "react") entry = true ∧ reactTarget entry = .ok id ∧
        reactMessage m entry = .ok m') := by
  obtain ⟨t, ht, hm⟩ := bind_eq_ok.mp h
  split at hm
  next hid =>
    subst hid
    unfold target at ht
    unfold mutate at hm
    split at ht
    next hown =>
      obtain ⟨id', hid', hsome⟩ := map_eq_ok.mp ht
      obtain rfl := Option.some.inj hsome
      split at hm
      next hedit => exact .inr (.inl ⟨hedit, hid', hm⟩)
      next hedit =>
        have hdel : hasKind (lit "del") entry = true := by simpa [hedit] using hown
        rw [if_pos hdel] at hm
        exact .inr (.inr (.inl ⟨hdel, hid', (Except.ok.inj hm).symm⟩))
    next hown =>
      have hnot : ¬hasKind (lit "edit") entry = true ∧ ¬hasKind (lit "del") entry = true := by
        simpa using hown
      rw [if_neg hnot.1, if_neg hnot.2] at hm
      split at ht
      next hreact =>
        obtain ⟨id', hid', hsome⟩ := map_eq_ok.mp ht
        obtain rfl := Option.some.inj hsome
        exact .inr (.inr (.inr ⟨hreact, hid', hm⟩))
      next => cases ht
  next hid =>
    refine .inl ⟨fun h' => hid ?_, (Except.ok.inj hm).symm⟩
    exact Except.ok.inj (ht.symm.trans h')

theorem editMessage_body (h : editMessage m entry = .ok m') :
    ∃ body edited, m' = { m with body, edited } := by
  unfold editMessage at h
  split at h
  · exact ⟨m.body, m.edited, (Except.ok.inj h).symm⟩
  · obtain ⟨text, -, h⟩ := bind_eq_ok.mp h
    split at h
    · exact ⟨m.body, m.edited, (Except.ok.inj h).symm⟩
    · exact ⟨_, _, (Except.ok.inj h).symm⟩

/-- A reaction changes the table of a line and nothing else. -/
theorem reactMessage_reacts (h : reactMessage m entry = .ok m') :
    ∃ reacts, m' = { m with reacts } := by
  unfold reactMessage at h
  split at h
  · exact ⟨m.reacts, (Except.ok.inj h).symm⟩
  obtain ⟨emo, -, h⟩ := bind_eq_ok.mp h
  split at h
  · exact ⟨m.reacts, (Except.ok.inj h).symm⟩
  split at h
  · exact ⟨m.reacts, (Except.ok.inj h).symm⟩
  obtain ⟨set, -, h⟩ := bind_eq_ok.mp h
  exact ⟨_, (Except.ok.inj h).symm⟩

/-- A replay leaves a line its number, author and time. -/
theorem same_replayLine (h : replayLine id entries m = .ok m') :
    m'.seq = m.seq ∧ m'.sender = m.sender ∧ m'.ts = m.ts := by
  refine foldlM_invariant (P := fun r => r.seq = m.seq ∧ r.sender = m.sender ∧ r.ts = m.ts) ?_
    ⟨rfl, rfl, rfl⟩ h
  intro entry _ r r' hr hstep
  rcases touch_cases hstep with ⟨-, rfl⟩ | ⟨-, -, hedit⟩ | ⟨-, -, rfl⟩ | ⟨-, -, hreact⟩
  · exact hr
  · obtain ⟨body, edited, rfl⟩ := editMessage_body hedit
    exact hr
  · exact hr
  · obtain ⟨reacts, rfl⟩ := reactMessage_reacts hreact
    exact hr

/-! ### One mutation -/

/-- **Step.**  A mutation that returns has done to each line what it does to that line. -/
theorem applyMutation_get? {messages messages' : Dict Str Message}
    (h : applyMutation messages entry = .ok messages') (id : Str) :
    (messages.get? id = none ∧ messages'.get? id = none) ∨
      ∃ m m', messages.get? id = some m ∧ touch id m entry = .ok m' ∧
        messages'.get? id = some m' := by
  rw [applyMutation_eq, bind_eq_ok] at h
  obtain ⟨t, ht, h⟩ := h
  have hrest : messages'.get? id = messages.get? id → t ≠ some id →
      (messages.get? id = none ∧ messages'.get? id = none) ∨
        ∃ m m', messages.get? id = some m ∧ touch id m entry = .ok m' ∧
          messages'.get? id = some m' := by
    intro hsame hne
    cases hg : messages.get? id with
    | none => exact .inl ⟨rfl, hsame.trans hg⟩
    | some m =>
      exact .inr ⟨m, m, rfl, by rw [touch_of_target ht, if_neg hne], hsame.trans hg⟩
  cases t with
  | none =>
    cases h
    exact hrest rfl nofun
  | some id' =>
    dsimp only at h
    unfold rewrite at h
    by_cases hid : id' = id
    · subst hid
      cases hg : messages.get? id' with
      | none =>
        rw [hg] at h
        cases h
        exact .inl ⟨rfl, hg⟩
      | some m =>
        rw [hg] at h
        obtain ⟨m', hm', rfl⟩ := map_eq_ok.mp h
        exact .inr ⟨m, m', rfl, by rw [touch_of_target ht, if_pos rfl, hm'],
          Dict.get?_set_self ..⟩
    · have hne : some id' ≠ some id := fun e => hid (Option.some.inj e)
      split at h
      · cases h
        exact hrest rfl hne
      · obtain ⟨m', -, rfl⟩ := map_eq_ok.mp h
        exact hrest (Dict.get?_set_of_ne _ _ hid) hne

/-- A mutation returns exactly when it says where it points and can be applied there. -/
theorem applyMutation_ok_iff (messages : Dict Str Message) (entry : Value) :
    (∃ messages', applyMutation messages entry = .ok messages') ↔
      (∃ t, target entry = .ok t) ∧
        ∀ id m, messages.get? id = some m → ∃ m', touch id m entry = .ok m' := by
  rw [applyMutation_eq]
  cases ht : target entry with
  | error e => exact ⟨fun ⟨_, h⟩ => (nomatch h), fun ⟨⟨_, h⟩, _⟩ => (nomatch h)⟩
  | ok t =>
    have htouch := fun id m => (touch_of_target ht : touch id m entry = _)
    simp only [htouch]
    change (∃ messages', (match t with
      | none => _
      | some id => _) = Except.ok messages') ↔ _
    cases t with
    | none => exact ⟨fun _ => ⟨⟨none, rfl⟩, fun _ m _ => ⟨m, rfl⟩⟩, fun _ => ⟨messages, rfl⟩⟩
    | some id =>
      dsimp only
      unfold rewrite
      constructor
      · rintro ⟨messages', h⟩
        refine ⟨⟨some id, rfl⟩, fun id' m hm => ?_⟩
        by_cases hid : some id = some id'
        · obtain rfl := Option.some.inj hid
          rw [hm] at h
          obtain ⟨m', hm', -⟩ := map_eq_ok.mp h
          exact ⟨m', by rw [if_pos rfl, hm']⟩
        · exact ⟨m, by rw [if_neg hid]⟩
      · rintro ⟨-, h⟩
        cases hg : messages.get? id with
        | none => exact ⟨messages, rfl⟩
        | some m =>
          obtain ⟨m', hm'⟩ := h id m hg
          rw [if_pos rfl] at hm'
          exact ⟨messages.set id m', map_eq_ok.mpr ⟨m', hm', rfl⟩⟩

/-! ### A whole replay -/

instance : Std.Total fun a b : Mutation => a.seq ≤ b.seq := ⟨fun a b => Nat.le_total a.seq b.seq⟩

instance : IsTrans Mutation fun a b => a.seq ≤ b.seq := ⟨fun _ _ _ => Nat.le_trans⟩

theorem mem_ordered {mu : Mutation} :
    mu ∈ log.ordered ↔ ∃ i, log.mutations.get? i = some mu := by
  rw [ChannelLog.ordered, List.mem_insertionSort, Dict.mem_values_iff]

/-- The entries of the mutations, in the order they are replayed. -/
def ChannelLog.replayed (log : ChannelLog) : List Value := log.ordered.map Mutation.entry

theorem mem_replayed :
    entry ∈ log.replayed ↔ ∃ i mu, log.mutations.get? i = some mu ∧ mu.entry = entry := by
  simp only [ChannelLog.replayed, List.mem_map, mem_ordered]
  exact ⟨fun ⟨mu, ⟨i, hmu⟩, he⟩ => ⟨i, mu, hmu, he⟩, fun ⟨i, mu, hmu, he⟩ => ⟨mu, ⟨i, hmu⟩, he⟩⟩

theorem replay_eq (log : ChannelLog) :
    replay log = log.replayed.foldlM applyMutation log.base := by
  rw [replay, ChannelLog.replayed, List.foldlM_map]

theorem foldlM_applyMutation_get? {messages : Dict Str Message}
    (h : entries.foldlM applyMutation messages = .ok shown) (id : Str) :
    (messages.get? id = none ∧ shown.get? id = none) ∨
      ∃ m m', messages.get? id = some m ∧ replayLine id entries m = .ok m' ∧
        shown.get? id = some m' := by
  induction entries generalizing messages with
  | nil =>
    obtain rfl : messages = shown := Except.ok.inj h
    cases hg : messages.get? id with
    | none => exact .inl ⟨rfl, rfl⟩
    | some m => exact .inr ⟨m, m, rfl, rfl, rfl⟩
  | cons entry entries ih =>
    obtain ⟨messages', hstep, hrest⟩ := foldlM_cons_eq_ok.mp h
    rcases applyMutation_get? hstep id with ⟨h1, h2⟩ | ⟨m, m', hm, ht, hm'⟩
    · rcases ih hrest with ⟨-, h4⟩ | ⟨m, m', hm, -, -⟩
      · exact .inl ⟨h1, h4⟩
      · rw [h2] at hm
        cases hm
    · rcases ih hrest with ⟨h3, -⟩ | ⟨m₁, m₂, hm₁, hline, hm₂⟩
      · rw [hm'] at h3
        cases h3
      · obtain rfl := Option.some.inj (hm'.symm.trans hm₁)
        exact .inr ⟨m, m₂, hm, replayLine_cons.mpr ⟨m', ht, hline⟩, hm₂⟩

/-- **Run.**  A line of a replayed log is the line as written with its own mutations replayed. -/
theorem replay_line (h : replay log = .ok shown) (hm : log.base.get? id = some m) :
    ∃ m', replayLine id log.replayed m = .ok m' ∧ shown.get? id = some m' := by
  rw [replay_eq] at h
  rcases foldlM_applyMutation_get? h id with ⟨h1, -⟩ | ⟨m₁, m', hm₁, hline, hshown⟩
  · rw [hm] at h1
    cases h1
  · obtain rfl := Option.some.inj (hm.symm.trans hm₁)
    exact ⟨m', hline, hshown⟩

/-- A replayed log has no line that was not written. -/
theorem replay_line_inv (h : replay log = .ok shown) (hm' : shown.get? id = some m') :
    ∃ m, log.base.get? id = some m ∧ replayLine id log.replayed m = .ok m' := by
  rw [replay_eq] at h
  rcases foldlM_applyMutation_get? h id with ⟨-, h2⟩ | ⟨m, m₁, hm, hline, hshown⟩
  · rw [hm'] at h2
    cases h2
  · obtain rfl := Option.some.inj (hm'.symm.trans hshown)
    exact ⟨m, hm, hline⟩

/-- Two replays show the same line where they start from the same line and replay the same over
it. -/
theorem shown_eq {a b : ChannelLog} {shown' : Dict Str Message} (ha : replay a = .ok shown)
    (hb : replay b = .ok shown') (hbase : a.base.get? id = b.base.get? id)
    (hline : ∀ m, replayLine id a.replayed m = replayLine id b.replayed m) :
    shown.get? id = shown'.get? id := by
  rw [replay_eq] at ha hb
  rcases foldlM_applyMutation_get? ha id with ⟨h1, h2⟩ | ⟨m, r, hm, hr, hshown⟩
  · rcases foldlM_applyMutation_get? hb id with ⟨-, h4⟩ | ⟨m', r', hm', -, -⟩
    · rw [h2, h4]
    · rw [← hbase, h1] at hm'
      cases hm'
  · rcases foldlM_applyMutation_get? hb id with ⟨h3, -⟩ | ⟨m', r', hm', hr', hshown'⟩
    · rw [← hbase, hm] at h3
      cases h3
    · obtain rfl := Option.some.inj (hm.symm.trans (hbase.trans hm'))
      rw [hline] at hr
      obtain rfl := Except.ok.inj (hr.symm.trans hr')
      rw [hshown, hshown']

/-- A replay returns exactly when every mutation says where it points and every line's own replay
returns. -/
theorem foldlM_applyMutation_ok_iff (entries : List Value) (messages : Dict Str Message) :
    (∃ shown, entries.foldlM applyMutation messages = .ok shown) ↔
      (∀ entry ∈ entries, ∃ t, target entry = .ok t) ∧
        ∀ id m, messages.get? id = some m → ∃ m', replayLine id entries m = .ok m' := by
  induction entries generalizing messages with
  | nil => exact ⟨fun _ => ⟨nofun, fun _ m _ => ⟨m, rfl⟩⟩, fun _ => ⟨messages, rfl⟩⟩
  | cons entry entries ih =>
    constructor
    · rintro ⟨shown, h⟩
      obtain ⟨messages', hstep, hrest⟩ := foldlM_cons_eq_ok.mp h
      have htargets := ((ih messages').mp ⟨shown, hrest⟩).1
      refine ⟨List.forall_mem_cons.mpr
        ⟨((applyMutation_ok_iff messages entry).mp ⟨messages', hstep⟩).1, htargets⟩, ?_⟩
      intro id m hm
      rcases foldlM_applyMutation_get? h id with ⟨h1, -⟩ | ⟨m₁, m', hm₁, hline, -⟩
      · rw [hm] at h1
        cases h1
      · obtain rfl := Option.some.inj (hm.symm.trans hm₁)
        exact ⟨m', hline⟩
    · rintro ⟨htargets, hlines⟩
      obtain ⟨messages', hstep⟩ := (applyMutation_ok_iff messages entry).mpr
        ⟨htargets entry (List.mem_cons_self ..), fun id m hm => by
          obtain ⟨r, hr⟩ := hlines id m hm
          obtain ⟨m', hm', -⟩ := replayLine_cons.mp hr
          exact ⟨m', hm'⟩⟩
      obtain ⟨shown, hrest⟩ := (ih messages').mpr
        ⟨fun e he => htargets e (List.mem_cons_of_mem _ he), fun id m' hm' => by
          rcases applyMutation_get? hstep id with ⟨-, h2⟩ | ⟨m, m₁, hm, ht, hm₁⟩
          · rw [hm'] at h2
            cases h2
          · obtain rfl := Option.some.inj (hm'.symm.trans hm₁)
            obtain ⟨r, hr⟩ := hlines id m hm
            obtain ⟨m₂, hm₂, hrest⟩ := replayLine_cons.mp hr
            obtain rfl := Except.ok.inj (ht.symm.trans hm₂)
            exact ⟨r, hrest⟩⟩
      exact ⟨shown, foldlM_cons_eq_ok.mpr ⟨messages', hstep, hrest⟩⟩

theorem renderLog_eq_ok {lines : List Message} :
    renderLog log = .ok lines ↔ ∃ shown, replay log = .ok shown ∧
      lines = shown.values.insertionSort fun a b => a.ts.cmpSub b.ts ≠ .gt := by
  unfold renderLog
  rw [bind_eq_ok]
  exact exists_congr fun shown => and_congr_right fun _ =>
    ⟨fun h => (Except.ok.inj h).symm, fun h => by rw [h]; rfl⟩

/-- The rendered lines are the replayed ones. -/
theorem mem_renderLog {lines : List Message}
    (hl : renderLog log = .ok lines) (hs : replay log = .ok shown) :
    m ∈ lines ↔ ∃ id, shown.get? id = some m := by
  obtain ⟨shown', hs', rfl⟩ := renderLog_eq_ok.mp hl
  obtain rfl := Except.ok.inj (hs.symm.trans hs')
  rw [List.mem_insertionSort, Dict.mem_values_iff]

end Quorum
