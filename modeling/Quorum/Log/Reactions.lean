import Quorum.Log.Replay
import Quorum.Log.Run
import Quorum.Tally

/-!
# Reactions, and when a log can be rendered

What a replay leaves of a line can be said without replaying (`lineAt`): a tombstone, if a mutation
deletes it, and otherwise the line with the text of the last edit that writes one and with the tally
of the votes that its reactions cast, at most `REACT_MAX` emoji each over a set of senders.

What can fail is the replay itself: a mutation trips when a conversion throws on it, or when its
emoji is a name that every object inherits (`trips`).  A log renders exactly when none of its
mutations trips, with the senders of the reactions that count as handles if these are strings
(`renderLog_total_iff`).
-/

namespace Quorum

open Js

/-! ### A line and its mutations -/

/-- A mutation of this kind, of the line under an identity. -/
def mutates (k id : Str) (entry : Value) : Bool := hasKind k entry && target entry = .ok (some id)

/-- The text that an edit writes, if it writes one. -/
def textOf (entry : Value) : Option Str := ((entry.get (lit "text")).text).toOption.filter (· ≠ [])

/-- The vote that a reaction casts.  One without an emoji casts none. -/
def voteOf (entry : Value) : Option (Vote Str Value) :=
  ((emojiOf entry).toOption.filter fun emo => emo ≠ [] ∧ emo ∉ Value.objectProto).map fun emo =>
    ⟨emo, entry.get (lit "sender"), addsReaction entry⟩

/-- The text that the last edit of a line leaves. -/
def lastText (id : Str) (entries : List Value) : Option Str :=
  ((entries.filter (mutates (lit "edit") id)).filterMap textOf).getLast?

/-- The votes on a line. -/
def votesOn (id : Str) (entries : List Value) : List (Vote Str Value) :=
  (entries.filter (mutates (lit "react") id)).filterMap voteOf

/-- A line with another text, if it is one of text. -/
def Message.rewritten (m : Message) : Option Str → Message
  | none => m
  | some text => if m.hasText then { m with body := some (.text text), edited := true } else m

theorem Message.rewritten_fields (m : Message) (text : Option Str) :
    (m.rewritten text).deleted = m.deleted ∧ (m.rewritten text).hasText = m.hasText ∧
      tombstone (m.rewritten text) = tombstone m := by
  unfold Message.rewritten
  split
  · exact ⟨rfl, rfl, rfl⟩
  · split
    next htext => exact ⟨rfl, htext.symm, rfl⟩
    next => exact ⟨rfl, rfl, rfl⟩

/-- What some mutations leave of the line under an identity. -/
def lineAt (id : Str) (entries : List Value) (m : Message) : Message :=
  if entries.any (mutates (lit "del") id) then tombstone m
  else { m.rewritten (lastText id entries) with reacts := tally REACT_MAX (votesOn id entries) }

/-- A line that no mutation has touched. -/
structure Message.Fresh (m : Message) : Prop where
  edited : m.edited = false
  deleted : m.deleted = false
  reacts : m.reacts = Dict.empty

theorem Message.Fresh.lineAt_nil {m : Message} (h : m.Fresh) (id : Str) : lineAt id [] m = m := by
  have := h.reacts
  cases m
  cases this
  rfl

theorem hasKind_unique {k k' : Str} {entry : Value} (h : hasKind k entry = true)
    (h' : hasKind k' entry = true) : k = k' := by
  rw [hasKind_iff] at h h'
  exact Value.str.inj (h.symm.trans h')

theorem mutates_eq {k id : Str} {entry : Value} (hk : hasKind k entry = true)
    (htarget : target entry = .ok (some id)) (k' : Str) : mutates k' id entry = (k' == k) := by
  rw [mutates, htarget, Bool.eq_iff_iff]
  simp only [decide_true, Bool.and_true, beq_iff_eq]
  exact ⟨fun h => hasKind_unique h hk, fun h => h ▸ hk⟩

/-- A mutation that points at a line is of one of the three kinds. -/
theorem kind_of_target {id : Str} {entry : Value} (h : target entry = .ok (some id)) :
    hasKind (lit "edit") entry = true ∨ hasKind (lit "del") entry = true ∨
      hasKind (lit "react") entry = true := by
  by_contra hnot
  simp only [not_or, Bool.not_eq_true] at hnot
  rw [target, hnot.1, hnot.2.1, hnot.2.2] at h
  cases h

theorem not_inherited_of_voteOf {entry : Value} {v : Vote Str Value} (h : voteOf entry = some v) :
    v.choice ∉ Value.objectProto := by
  obtain ⟨emo, hemo, rfl⟩ := Option.map_eq_some_iff.mp h
  have := (Option.filter_eq_some_iff.mp hemo).2
  rw [decide_eq_true_eq] at this
  exact this.2

/-- No emoji of the tally is a name that the table inherits. -/
theorem get?_votesOn_inherited (id : Str) (entries : List Value) {emo : Str}
    (hemo : emo ∈ Value.objectProto) : (tally REACT_MAX (votesOn id entries)).get? emo = none := by
  refine get?_tally_of_notMem fun v hv heq => ?_
  obtain ⟨entry, -, hvote⟩ := List.mem_filterMap.mp hv
  exact not_inherited_of_voteOf hvote (heq ▸ hemo)

section

variable (id : Str) (entries : List Value) {m : Message}

theorem deleted_lineAt (hdeleted : m.deleted = false) :
    (lineAt id entries m).deleted = entries.any (mutates (lit "del") id) := by
  unfold lineAt
  split
  next h => exact h.symm
  next h => exact (m.rewritten_fields _).1.trans (hdeleted.trans (Bool.not_eq_true _ ▸ h).symm)

theorem hasText_lineAt (h : entries.any (mutates (lit "del") id) = false) :
    (lineAt id entries m).hasText = m.hasText := by
  rw [lineAt, if_neg (by simp [h])]
  exact (m.rewritten_fields _).2.1

theorem tombstone_lineAt : tombstone (lineAt id entries m) = tombstone m := by
  unfold lineAt
  split
  · rfl
  · exact (m.rewritten_fields _).2.2

theorem lineAt_inherited {emo : Str} (hemo : emo ∈ Value.objectProto) :
    (lineAt id entries m).reacts.get? emo = none := by
  unfold lineAt
  split
  · rfl
  · exact get?_votesOn_inherited id entries hemo

end

/-! ### What each mutation does -/

variable {entry : Value} {m r : Message} {id : Str} {entries : List Value}

/-- The table of a line with room for an emoji, or that the emoji is taken off, as a vote. -/
theorem writeCast_eq_cast {reacts : Dict Str (List Value)} {emo : Str}
    (hroom : addsReaction entry = true → hasRoom REACT_MAX reacts emo = true) :
    writeCast reacts emo (recast entry (voters reacts emo)) =
      Vote.cast REACT_MAX reacts ⟨emo, entry.get (lit "sender"), addsReaction entry⟩ := by
  unfold Vote.cast recast writeCast
  cases hadds : addsReaction entry with
  | true =>
    have hne : insertNew (voters reacts emo) (entry.get (lit "sender")) ≠ [] := by
      unfold insertNew
      split
      next hany => exact List.ne_nil_of_mem (List.any_eq_true.mp hany).choose_spec.1
      next => simp
    simp [hroom hadds, hne]
  | false => rfl

/-- A reaction to a line that stands casts its vote. -/
theorem reactMessage_eq {r' : Message} (hdeleted : r.deleted = false)
    (hreacts : TableOk REACT_MAX r.reacts)
    (hno : ∀ emo ∈ Value.objectProto, r.reacts.get? emo = none)
    (h : reactMessage r entry = .ok r') :
    r' = { r with reacts := (voteOf entry).elim r.reacts (Vote.cast REACT_MAX r.reacts) } := by
  rw [reactMessage, if_neg (by simp [hdeleted])] at h
  obtain ⟨emo, hemo, h⟩ := bind_eq_ok.mp h
  have hvote : voteOf entry = if emo ≠ [] ∧ emo ∉ Value.objectProto then
      some ⟨emo, entry.get (lit "sender"), addsReaction entry⟩ else none := by
    rw [voteOf, hemo]
    by_cases h : emo ≠ [] ∧ emo ∉ Value.objectProto <;> simp [Except.toOption, Option.filter, h]
  by_cases hnil : emo = []
  · rw [if_pos hnil] at h
    rw [hvote, if_neg fun h => h.1 hnil, ← Except.ok.inj h]
    rfl
  rw [if_neg hnil] at h
  by_cases hproto : emo ∈ Value.objectProto
  · -- an inherited name is never counted against the bound, and cannot be read as a set
    simp [noRoomFor, castUnder, hno emo hproto, hproto] at h
  have hcast : castUnder r.reacts emo = .ok (voters r.reacts emo) := by
    have := hreacts.distinct emo
    unfold castUnder voters at *
    cases hget : r.reacts.get? emo with
    | none => simp [hproto]
    | some l =>
      rw [hget] at this
      exact congrArg _ (unique_of_distinct this)
  rw [hvote, if_pos ⟨hnil, hproto⟩, Option.elim_some]
  by_cases hfull : addsReaction entry = true ∧ hasRoom REACT_MAX r.reacts emo = false
  · have hnoroom : noRoomFor r.reacts emo = true := by
      simpa [noRoomFor, hasRoom, hproto] using hfull.2
    rw [hfull.1, hnoroom] at h
    rw [← Except.ok.inj h, Vote.cast, if_pos hfull.1, if_neg (by simp [hfull.2])]
  · have hroom : addsReaction entry = true → hasRoom REACT_MAX r.reacts emo = true := by
      simpa using hfull
    have hpasses : (addsReaction entry && noRoomFor r.reacts emo) = false := by
      cases hadds : addsReaction entry with
      | false => rfl
      | true => simpa [noRoomFor, hasRoom, hproto, or_iff_not_imp_left] using hroom hadds
    rw [hpasses, hcast, if_neg Bool.false_ne_true] at h
    rw [← writeCast_eq_cast hroom]
    exact (Except.ok.inj h).symm

/-- An edit of a line of text that stands writes its text. -/
theorem editMessage_rewritten {text : Option Str}
    {reacts : Dict Str (List Value)} (hdeleted : m.deleted = false)
    (h : editMessage { m.rewritten text with reacts } entry = .ok r) :
    r = { m.rewritten ((textOf entry).or text) with reacts } := by
  obtain ⟨hdel, htext, -⟩ := m.rewritten_fields text
  have hstands : ({ m.rewritten text with reacts } : Message).deleted = false := hdel.trans hdeleted
  have htext : ({ m.rewritten text with reacts } : Message).hasText = m.hasText := htext
  unfold editMessage at h
  cases hm : m.hasText with
  | false =>
    rw [if_pos (by rw [htext, hm]; simp)] at h
    have hsame : ∀ text, m.rewritten text = m := by
      rintro (- | text) <;> simp [Message.rewritten, hm]
    rw [hsame] at h ⊢
    exact (Except.ok.inj h).symm
  | true =>
    rw [if_neg (by rw [hstands, htext, hm]; simp)] at h
    obtain ⟨new, hnew, h⟩ := bind_eq_ok.mp h
    have htextOf : textOf entry = (some new).filter (· ≠ []) := by rw [textOf, hnew]; rfl
    by_cases hnil : new = []
    · rw [if_pos hnil] at h
      rw [htextOf, hnil]
      exact (Except.ok.inj h).symm
    · rw [if_neg hnil] at h
      rw [htextOf, Option.filter_some, if_pos (by simpa using hnil), Option.some_or,
        ← Except.ok.inj h]
      cases text <;> simp only [Message.rewritten, hm, if_true]

/-- **Step.**  A mutation that returns leaves of a line what it should. -/
theorem touch_lineAt {earlier : List Value}
    (hdeleted : m.deleted = false) (h : touch id (lineAt id earlier m) entry = .ok r) :
    r = lineAt id (earlier ++ [entry]) m := by
  by_cases htarget : target entry = .ok (some id)
  · rw [touch_of_target htarget, if_pos rfl] at h
    have hany : ∀ b, mutates (lit "del") id entry = b →
        (earlier ++ [entry]).any (mutates (lit "del") id) =
          (earlier.any (mutates (lit "del") id) || b) := by
      rintro b rfl
      simp
    rcases kind_of_target htarget with hk | hk | hk <;> have hmut := mutates_eq hk htarget
    · -- an edit: its text is the last one now, and no vote
      rw [mutate, if_pos hk] at h
      have htext : lastText id (earlier ++ [entry]) = (textOf entry).or (lastText id earlier) := by
        rw [lastText, List.filter_append, List.filterMap_append, List.getLast?_append]
        simp [hmut, lastText]
      have hvotes : votesOn id (earlier ++ [entry]) = votesOn id earlier := by
        rw [votesOn, List.filter_append, List.filter_cons_of_neg (by rw [hmut]; decide)]
        simp [votesOn]
      unfold lineAt at h ⊢
      rw [hany _ (hmut _), htext, hvotes, (by decide : (lit "del" == lit "edit") = false),
        Bool.or_false]
      split at h
      next hdel => rw [if_pos hdel, (Except.ok.inj h).symm]
      next hdel =>
        rw [if_neg hdel]
        exact editMessage_rewritten hdeleted h
    · rw [mutate, if_neg fun he => absurd (hasKind_unique hk he) (by decide), if_pos hk] at h
      rw [← Except.ok.inj h, tombstone_lineAt, lineAt, if_pos (by rw [hany _ (hmut _)]; simp)]
    · -- a reaction: one more vote on the line
      rw [mutate, if_neg fun he => absurd (hasKind_unique hk he) (by decide),
        if_neg fun he => absurd (hasKind_unique hk he) (by decide)] at h
      have htext : lastText id (earlier ++ [entry]) = lastText id earlier := by
        rw [lastText, List.filter_append, List.filter_cons_of_neg (by rw [hmut]; decide)]
        simp [lastText]
      have hvotes : tally REACT_MAX (votesOn id (earlier ++ [entry])) =
          (voteOf entry).elim (tally REACT_MAX (votesOn id earlier))
            (Vote.cast REACT_MAX (tally REACT_MAX (votesOn id earlier))) := by
        rw [votesOn, List.filter_append, List.filterMap_append,
          List.filter_cons_of_pos (by rw [hmut]; decide)]
        cases hvote : voteOf entry <;> simp [hvote, votesOn]
      unfold lineAt at h ⊢
      rw [hany _ (hmut _), htext, hvotes, (by decide : (lit "del" == lit "react") = false),
        Bool.or_false]
      split at h
      next hdel => rw [if_pos hdel, (Except.ok.inj h).symm]
      next hdel =>
        rw [if_neg hdel]
        have hstands := deleted_lineAt id earlier hdeleted
        rw [lineAt, if_neg hdel, Bool.not_eq_true _ |>.mp hdel] at hstands
        exact reactMessage_eq hstands (tableOk_tally _ _)
          (fun emo hemo => get?_votesOn_inherited id earlier hemo) h
  · -- a mutation that points elsewhere
    have hmut : ∀ k, mutates k id entry = false := fun k => by simp [mutates, htarget]
    obtain ⟨t, ht, h⟩ := bind_eq_ok.mp h
    rw [if_neg fun heq : t = some id => htarget (heq ▸ ht)] at h
    simp [← Except.ok.inj h, lineAt, lastText, votesOn, hmut]

/-- **Run.**  A replay that returns leaves of a line what it should. -/
theorem replayLine_eq (hfresh : m.Fresh)
    (h : replayLine id entries m = .ok r) : r = lineAt id entries m := by
  have hrun : ∀ earlier, replayLine id entries (lineAt id earlier m) = .ok r →
      r = lineAt id (earlier ++ entries) m := by
    clear h
    induction entries with
    | nil =>
      intro earlier h
      rw [List.append_nil]
      exact (Except.ok.inj h).symm
    | cons entry entries ih =>
      intro earlier h
      obtain ⟨r₁, hstep, h⟩ := replayLine_cons.mp h
      rw [touch_lineAt hfresh.deleted hstep] at h
      rw [ih _ h, List.append_assoc]
      rfl
  exact hrun [] (by rwa [hfresh.lineAt_nil])

/-- A vote was cast by a reaction to the line. -/
theorem exists_react_of_vote {v : Vote Str Value}
    (h : v ∈ votesOn id entries) : ∃ entry ∈ entries, hasKind (lit "react") entry = true ∧
      reactTarget entry = .ok id ∧ entry.get (lit "sender") = v.voter := by
  obtain ⟨entry, hentry, hvote⟩ := List.mem_filterMap.mp h
  obtain ⟨hmem, hmut⟩ := List.mem_filter.mp hentry
  obtain ⟨emo, -, rfl⟩ := Option.map_eq_some_iff.mp hvote
  rw [mutates, Bool.and_eq_true, decide_eq_true_eq] at hmut
  obtain ⟨hkind, htarget⟩ := hmut
  have hother : ∀ k, k ≠ lit "react" → hasKind k entry = false := fun k hk =>
    Bool.not_eq_true _ |>.mp fun h => hk (hasKind_unique h hkind)
  rw [target, hother _ (by decide), hother _ (by decide), hkind] at htarget
  obtain ⟨id', hid', hsome⟩ := map_eq_ok.mp htarget
  exact ⟨entry, hmem, hkind, Option.some.inj hsome ▸ hid', rfl⟩

/-- Whoever stands under an emoji of a line has sent a reaction to it. -/
theorem exists_react_of_reacts {emo : Str}
    {l : List Value} {w : Value} (hl : (lineAt id entries m).reacts.get? emo = some l)
    (hw : w ∈ l) : ∃ entry ∈ entries, hasKind (lit "react") entry = true ∧
      reactTarget entry = .ok id ∧ entry.get (lit "sender") = w := by
  unfold lineAt at hl
  split at hl
  next => cases hl
  next =>
    have hvoters : w ∈ voters (tally REACT_MAX (votesOn id entries)) emo := by
      rw [voters, show (tally REACT_MAX (votesOn id entries)).get? emo = some l from hl]
      exact hw
    obtain ⟨before, v, after, hvotes, -, -, rfl⟩ := exists_counts hvoters
    exact exists_react_of_vote (by simp [hvotes])

/-! ### Mutations that trip -/

/-- A mutation that cannot be applied to a standing line: the text of an edit or the emoji of a
reaction cannot be read, or the emoji is a name that the table inherits. -/
def unreadable (m : Message) (entry : Value) : Bool :=
  if hasKind (lit "edit") entry then m.hasText && !((entry.get (lit "text")).text).isOk
  else if hasKind (lit "del") entry then false
  else
    match emojiOf entry with
    | .ok emo => emo ∈ Value.objectProto
    | .error _ => true

/-- A mutation that makes a replay throw, given the lines as written and the mutations replayed
before it. -/
def trips (base : Dict Str Message) (earlier : List Value) (entry : Value) : Bool :=
  match target entry with
  | .error _ => true
  | .ok none => false
  | .ok (some id) =>
    match base.get? id with
    | none => false
    | some m => !earlier.any (mutates (lit "del") id) && unreadable m entry

/-! ### When a mutation can be applied -/

theorem editMessage_ok_iff (r : Message) (entry : Value) :
    (∃ r', editMessage r entry = .ok r') ↔
      r.deleted = true ∨ (r.hasText && !((entry.get (lit "text")).text).isOk) = false := by
  unfold editMessage
  cases r.deleted with
  | true => simp
  | false =>
    cases r.hasText with
    | false => simp
    | true =>
      cases (entry.get (lit "text")).text with
      | error e => simp
      | ok text => by_cases ht : text = [] <;> simp [ht]

theorem reactMessage_ok_iff (hno : ∀ emo ∈ Value.objectProto, r.reacts.get? emo = none) :
    (∃ r', reactMessage r entry = .ok r') ↔
      r.deleted = true ∨ ∃ emo, emojiOf entry = .ok emo ∧ emo ∉ Value.objectProto := by
  unfold reactMessage
  cases r.deleted with
  | true => simp
  | false =>
    cases hemo : emojiOf entry with
    | error e => simp
    | ok emo =>
      by_cases hproto : emo ∈ Value.objectProto
      · -- An inherited name is neither empty nor ever counted against the bound.
        have hne : emo ≠ [] := by
          rintro rfl
          revert hproto
          decide
        have hroom : noRoomFor r.reacts emo = false := by simp [noRoomFor, hproto]
        have hcast : castUnder r.reacts emo = .error .typeError := by
          simp [castUnder, hno emo hproto, hproto]
        simp [hne, hroom, hcast, hproto]
      · have hcast : ∃ set, castUnder r.reacts emo = .ok set := by
          unfold castUnder
          split
          · exact ⟨_, rfl⟩
          · exact ⟨[], if_neg hproto⟩
        obtain ⟨set, hset⟩ := hcast
        by_cases hne : emo = []
        · simp [hne]
          decide
        · by_cases hfull : addsReaction entry = true ∧ noRoomFor r.reacts emo = true <;>
            simp [hne, hfull, hset, hproto]

/-- A mutation can be applied to a deleted line, and to any other that it can be read for. -/
theorem mutate_ok_iff (hno : ∀ emo ∈ Value.objectProto, r.reacts.get? emo = none) :
    (∃ r', mutate entry r = .ok r') ↔ r.deleted = true ∨ unreadable r entry = false := by
  unfold mutate unreadable
  split
  · exact editMessage_ok_iff r entry
  split
  · simp
  · rw [reactMessage_ok_iff hno]
    cases emojiOf entry <;> simp

theorem unreadable_congr (h : r.hasText = m.hasText) (entry : Value) :
    unreadable r entry = unreadable m entry := by
  rw [unreadable, unreadable, h]

/-- **Run.**  A line's replay returns exactly when every mutation that points at it comes after a
deletion of it or can be read. -/
theorem replayLine_ok_iff (id : Str) (earlier : List Value)
    (htargets : ∀ entry ∈ entries, ∃ t, target entry = .ok t) (hdeleted : m.deleted = false) :
    (∃ r, replayLine id entries (lineAt id earlier m) = .ok r) ↔
      ∀ before entry after, entries = before ++ entry :: after →
        target entry = .ok (some id) →
        (earlier ++ before).any (mutates (lit "del") id) = true ∨ unreadable m entry = false := by
  induction entries generalizing earlier with
  | nil =>
    refine ⟨fun _ before entry after h => ?_, fun _ => ⟨_, rfl⟩⟩
    exact absurd h.symm (by simp)
  | cons entry entries ih =>
    have hrest := fun e he => htargets e (List.mem_cons_of_mem _ he)
    obtain ⟨t, ht⟩ := htargets entry (List.mem_cons_self ..)
    -- Whether the first mutation returns on the line as it stands.
    have hfirst : (∃ r, touch id (lineAt id earlier m) entry = .ok r) ↔ (target entry = .ok (some id) →
        earlier.any (mutates (lit "del") id) = true ∨ unreadable m entry = false) := by
      rw [touch_of_target ht, ht]
      split
      next hid =>
        rw [mutate_ok_iff fun _ => lineAt_inherited id earlier, deleted_lineAt id earlier hdeleted, hid]
        cases hd : earlier.any (mutates (lit "del") id) with
        | true => simp
        | false => simp [unreadable_congr (hasText_lineAt id earlier hd)]
      next hid => simp [hid]
    constructor
    · rintro ⟨r, h⟩ before e after hsplit htarget
      obtain ⟨r₁, hstep, hline⟩ := replayLine_cons.mp h
      cases before with
      | nil =>
        obtain ⟨rfl, -⟩ := List.cons.inj hsplit
        rw [List.append_nil]
        exact hfirst.mp ⟨r₁, hstep⟩ htarget
      | cons b before =>
        obtain ⟨rfl, hsplit'⟩ := List.cons.inj hsplit
        rw [touch_lineAt hdeleted hstep] at hline
        have := (ih _ hrest).mp ⟨r, hline⟩ before e after hsplit' htarget
        rwa [List.append_assoc] at this
    · intro h
      obtain ⟨r₁, hstep⟩ := hfirst.mpr fun htarget => by
        have := h [] entry entries rfl htarget
        rwa [List.append_nil] at this
      obtain ⟨r, hline⟩ := (ih (earlier ++ [entry]) hrest).mpr
        fun before e after hsplit htarget => by
          have := h (entry :: before) e after (by rw [hsplit]; rfl) htarget
          rwa [List.append_assoc]
      rw [← touch_lineAt hdeleted hstep] at hline
      exact ⟨r, replayLine_cons.mpr ⟨r₁, hstep, hline⟩⟩

theorem trips_eq_false_iff (base : Dict Str Message) (earlier : List Value) (entry : Value) :
    trips base earlier entry = false ↔ (∃ t, target entry = .ok t) ∧
      ∀ id m, base.get? id = some m → target entry = .ok (some id) →
        earlier.any (mutates (lit "del") id) = true ∨ unreadable m entry = false := by
  unfold trips
  cases target entry with
  | error e => simp
  | ok t =>
    cases t with
    | none => simp
    | some id =>
      cases hg : base.get? id with
      | none =>
        simp only [hg, Except.ok.injEq, Option.some.injEq, exists_eq', true_and, true_iff]
        rintro id' m hm rfl
        rw [hg] at hm
        cases hm
      | some m =>
        simp only [hg, Bool.and_eq_false_iff, Bool.not_eq_false', Except.ok.injEq,
          Option.some.injEq, exists_eq', true_and]
        constructor
        · rintro h id' m' hm' rfl
          obtain rfl := Option.some.inj (hg.symm.trans hm')
          exact h
        · exact fun h => h id m hg rfl

/-- **When a log renders.**  A replay over lines as written returns exactly when no mutation
trips. -/
theorem replay_ok_iff {log : ChannelLog}
    (hfresh : ∀ id m, log.base.get? id = some m → m.Fresh) :
    (∃ shown, replay log = .ok shown) ↔
      ∀ before entry after, log.replayed = before ++ entry :: after →
        trips log.base before entry = false := by
  have hline : ∀ id m, log.base.get? id = some m →
      (∀ entry ∈ log.replayed, ∃ t, target entry = .ok t) → _ := fun id m hm htargets =>
    (hfresh id m hm).lineAt_nil id ▸
      replayLine_ok_iff id [] htargets (hfresh id m hm).deleted
  rw [replay_eq, foldlM_applyMutation_ok_iff]
  constructor
  · rintro ⟨htargets, hlines⟩ before entry after hsplit
    have hentry : entry ∈ log.replayed := by rw [hsplit]; simp
    rw [trips_eq_false_iff]
    refine ⟨htargets entry hentry, fun id m hm htarget => ?_⟩
    exact (hline id m hm htargets).mp (hlines id m hm) before entry after hsplit htarget
  · intro h
    have htargets : ∀ entry ∈ log.replayed, ∃ t, target entry = .ok t := by
      intro entry hentry
      obtain ⟨before, after, hsplit⟩ := List.append_of_mem hentry
      exact ((trips_eq_false_iff _ _ _).mp (h before entry after hsplit)).1
    refine ⟨htargets, fun id m hm => ?_⟩
    refine (hline id m hm htargets).mpr ?_
    intro before entry after hsplit htarget
    exact ((trips_eq_false_iff _ _ _).mp (h before entry after hsplit)).2 id m hm htarget

/-! ### Logs that a run reaches -/

/-- The items that a run of calls is handed. -/
def handed (calls : List Call) : List Item :=
  calls.flatMap fun
    | .arrive a => a.items
    | _ => []

/-- A handle that signed a reaction among the entries a run was handed. -/
def SignedReact (calls : List Call) (handle : Str) : Prop :=
  ∃ item ∈ handed calls, item.auth = .signed ∧ item.entry.get (lit "k") = .str (lit "react") ∧
    item.entry.get (lit "sender") = .str handle

/-- A line whose reactions are what the fold promises: few distinct emoji, each over a non-empty
list of distinct handles that signed a reaction. -/
def ReactionsOk (calls : List Call) (m : Message) : Prop :=
  m.reacts.size ≤ REACT_MAX ∧ ∀ emo l, m.reacts.get? emo = some l →
    ∃ handles : List Str, l = handles.map Value.str ∧ handles ≠ [] ∧ handles.Nodup ∧
      ∀ handle ∈ handles, SignedReact calls handle

theorem mem_handed (place : Place) {calls : List Call} {item : Item}
    (h : Step.entry item ∈ calls.flatMap (Call.steps place)) : item ∈ handed calls := by
  obtain ⟨c, hc, hstep⟩ := List.mem_flatMap.mp h
  refine List.mem_flatMap.mpr ⟨c, hc, ?_⟩
  cases c with
  | arrive a =>
    obtain ⟨item', hitem', heq⟩ := List.mem_map.mp hstep
    obtain rfl := Step.entry.inj heq
    exact reached_subset place _ hitem'
  | addSystemMessage text ts | pruneLog beforeTs => simp [Call.steps] at hstep

/-- Every line of a reached log is as it was written: no mutation is applied in place. -/
theorem fresh_of_origin {place : Place} {steps : List Step}
    (h : LineFrom place steps id m) : m.Fresh := by
  rcases h with ⟨item, -, hc, -⟩ | ⟨text, ts, n, -, -, rfl⟩
  · obtain ⟨sender, ts, reply, body, -, -, rfl⟩ := contentOf_some hc
    exact ⟨rfl, rfl, rfl⟩
  · exact ⟨rfl, rfl, rfl⟩

/-- Every mutation replayed was handed in as a verified entry. -/
theorem replayed_origin {place : Place} {steps : List Step}
    (h : entry ∈ (runSteps place steps).replayed) :
    ∃ item, Step.entry item ∈ steps ∧ item.auth = .signed ∧ item.entry = entry := by
  obtain ⟨id, mu, hmu, rfl⟩ := mem_replayed.mp h
  obtain ⟨-, item, hitem, hm, he⟩ := (origin place steps).mutation id mu hmu
  rw [Item.isMutation, Bool.and_eq_true, decide_eq_true_eq] at hm
  exact ⟨item, hitem, hm.2, he⟩

theorem exists_handles (calls : List Call) {l : List Value} (hdistinct : Distinct l)
    (hl : ∀ w ∈ l, ∃ handle, w = .str handle ∧ SignedReact calls handle) :
    ∃ handles : List Str, l = handles.map Value.str ∧ handles.Nodup ∧
      ∀ handle ∈ handles, SignedReact calls handle := by
  induction l with
  | nil => exact ⟨[], rfl, List.nodup_nil, nofun⟩
  | cons w l ih =>
    rw [Distinct, List.pairwise_cons] at hdistinct
    obtain ⟨handles, rfl, hnodup, hsigned⟩ :=
      ih hdistinct.2 fun w' hw' => hl w' (List.mem_cons_of_mem _ hw')
    obtain ⟨handle, rfl, hhandle⟩ := hl w (List.mem_cons_self ..)
    refine ⟨handle :: handles, rfl, List.nodup_cons.mpr ⟨fun hmem => ?_, hnodup⟩, ?_⟩
    · have := hdistinct.1 _ (List.mem_map_of_mem hmem)
      simp at this
    · exact List.forall_mem_cons.mpr ⟨hhandle, hsigned⟩

/-- **Rendering attacker-written entries.**  In every run the log renders, with every line's
reactions in order, exactly when none of its mutations trips and the sender of every vote that counts,
on a line that is not deleted, is a string. -/
theorem renderLog_total_iff (place : Place) (calls : List Call) :
    (∃ lines, renderLog (runCalls place calls) = .ok lines ∧ ∀ m ∈ lines, ReactionsOk calls m) ↔
      (∀ before entry after, (runCalls place calls).replayed = before ++ entry :: after →
        trips (runCalls place calls).base before entry = false) ∧
      ∀ id m, (runCalls place calls).base.get? id = some m →
        (runCalls place calls).replayed.any (mutates (lit "del") id) = false →
        ∀ before v after, votesOn id (runCalls place calls).replayed = before ++ v :: after →
          v.Counts REACT_MAX before after → ∃ handle, v.voter = .str handle := by
  rw [runCalls_eq_runSteps]
  generalize hsteps : calls.flatMap (Call.steps place) = steps
  have hfresh := fun id m hm => fresh_of_origin ((origin place steps).line id m hm)
  rw [← replay_ok_iff hfresh]
  constructor
  · rintro ⟨lines, hlines, hreactions⟩
    obtain ⟨shown, hshown, -⟩ := renderLog_eq_ok.mp hlines
    refine ⟨⟨shown, hshown⟩, fun id m hm hstands before v after hvotes hcounts => ?_⟩
    obtain ⟨r, hline, hr⟩ := replay_line hshown hm
    have hok := (hreactions r ((mem_renderLog hlines hshown).mpr ⟨id, hr⟩)).2 v.choice
    rw [replayLine_eq (hfresh id m hm) hline, lineAt, if_neg (by simp [hstands]), hvotes] at hok
    -- whoever stands there is listed, and so a string
    obtain ⟨w, hw, hbeq⟩ := standing_of_counts hcounts
    unfold voters at hw
    cases hl : (tally REACT_MAX (before ++ v :: after)).get? v.choice with
    | none =>
      rw [hl] at hw
      cases hw
    | some l =>
      rw [hl] at hw
      obtain ⟨handles, rfl, -⟩ := hok l hl
      obtain ⟨handle, -, rfl⟩ := List.mem_map.mp hw
      exact ⟨handle, Value.eq_str_of_beq (BEq.symm hbeq)⟩
  · rintro ⟨⟨shown, hshown⟩, hcast⟩
    refine ⟨_, renderLog_eq_ok.mpr ⟨shown, hshown, rfl⟩, fun r hr => ?_⟩
    obtain ⟨id, hid⟩ := (mem_renderLog (renderLog_eq_ok.mpr ⟨shown, hshown, rfl⟩) hshown).mp hr
    obtain ⟨m, hm, hline⟩ := replay_line_inv hshown hid
    rw [replayLine_eq (hfresh id m hm) hline, lineAt]
    split
    next => exact ⟨Nat.zero_le _, nofun⟩
    next hstands =>
      have htable := tableOk_tally REACT_MAX (votesOn id (runSteps place steps).replayed)
      refine ⟨htable.size_le, fun emo l hl => ?_⟩
      generalize hvotes : votesOn id (runSteps place steps).replayed = votes at htable
      have hl : (tally REACT_MAX votes).get? emo = some l := hvotes ▸ hl
      have hvoters : voters (tally REACT_MAX votes) emo = l := by
        rw [voters, hl]
        rfl
      -- Every handle in the list is the sender of a verified reaction that the run was handed.
      obtain ⟨handles, rfl, hnodup, hsigned⟩ := exists_handles calls
        (hvoters ▸ htable.distinct emo) fun w hw => by
          obtain ⟨before, v, after, rfl, hcounts, -, rfl⟩ := exists_counts (hvoters ▸ hw)
          obtain ⟨handle, hhandle⟩ :=
            hcast id m hm (by simpa using hstands) before v after hvotes hcounts
          have hv : v ∈ votesOn id (runSteps place steps).replayed := by simp [hvotes]
          obtain ⟨entry, hentry, hkind, -, hsender⟩ := exists_react_of_vote hv
          obtain ⟨item, hitem, hauth, rfl⟩ := replayed_origin hentry
          exact ⟨handle, hhandle, item, mem_handed place (by rw [hsteps]; exact hitem), hauth,
            hasKind_iff.mp hkind, hsender.trans hhandle⟩
      exact ⟨handles, rfl, fun hnil => htable.nonempty emo (by rw [hl, hnil]; rfl), hnodup, hsigned⟩

/-- A reaction entry: its sender, timestamp and emoji, and the line it points at. -/
def reactEntry (sender : Str) (ts : Number) (emo : Str) (lineSender : Str) (lineTs : Number) : Value :=
  .obj 1 [(lit "k", .str (lit "react")),
    (lit "to", .obj 2 [(lit "sender", .str lineSender), (lit "ts", .num lineTs)]),
    (lit "emo", .str emo), (lit "ts", .num ts), (lit "sender", .str sender)]

/-- A page with a line, a signed reaction to it and one to no line by a number. -/
def reactedPage (emo : Str) : List Call :=
  [.arrive (.addEntries [⟨some 1, chatEntry (lit "alice") (.ofRat 5) (lit "hi"), .signed⟩,
    ⟨some 2, reactEntry (lit "bob") (.ofRat 6) emo (lit "alice") (.ofRat 5), .signed⟩,
    ⟨some 3, .obj 3 [(lit "k", .str (lit "react")), (lit "ts", .num (.ofRat 7)),
      (lit "sender", .num (.ofRat 5)), (lit "emo", .str (lit "+1"))], .signed⟩])]

/-- A reaction with the emoji `toString` makes the whole channel unrenderable. -/
theorem inherited_emoji_throws :
    (renderLog (runCalls ⟨[], []⟩ (reactedPage (lit "toString")))).isOk = false := by
  decide +kernel

/-- An ordinary reaction renders; one to no line does no harm, whoever sent it. -/
theorem thumbs_up_renders :
    ∃ lines, renderLog (runCalls ⟨[], []⟩ (reactedPage (lit "+1"))) = .ok lines ∧
      ∀ m ∈ lines, ReactionsOk (reactedPage (lit "+1")) m := by
  obtain ⟨htrips, hvotes⟩ :
      (∀ entry ∈ (runCalls ⟨[], []⟩ (reactedPage (lit "+1"))).replayed,
        trips (runCalls ⟨[], []⟩ (reactedPage (lit "+1"))).base [] entry = false) ∧
      ∀ id ∈ (runCalls ⟨[], []⟩ (reactedPage (lit "+1"))).base.keys,
        (votesOn id (runCalls ⟨[], []⟩ (reactedPage (lit "+1"))).replayed).all
          (·.voter == .str (lit "bob")) = true := by
    decide +kernel
  refine (renderLog_total_iff ⟨[], []⟩ (reactedPage (lit "+1"))).mpr
    ⟨fun before entry after hsplit => ?_, fun id m hm _ before v after hsplit _ => ?_⟩
  · have hentry := htrips entry (by simp [hsplit])
    rw [trips_eq_false_iff] at hentry ⊢
    exact ⟨hentry.1, fun id m hm ht => .inr ((hentry.2 id m hm ht).resolve_left nofun)⟩
  · have hid : id ∈ (runCalls ⟨[], []⟩ (reactedPage (lit "+1"))).base.keys :=
      Dict.has_iff_mem_keys.mp (by rw [Dict.has_eq_isSome, hm]; rfl)
    exact ⟨_, Value.eq_str_of_beq (List.all_eq_true.mp (hvotes id hid) v (by simp [hsplit]))⟩

end Quorum
