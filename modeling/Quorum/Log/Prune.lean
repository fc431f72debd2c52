import Quorum.Js.Entries
import Quorum.Js.Sort
import Quorum.Log.Echo
import Quorum.Log.Pages
import Quorum.Log.Run

/-!
# Retention

`pruneLog` drops the lines that are older than a cutoff, and the mutations that are: each by its own
timestamp.  A line that stays keeps the mutations that are not older than the cutoff, whatever their
place in the log, and loses the others.

So what is shown after pruning is what was shown before it, less the old lines, just if none of the
mutations that go mattered on a line that stays (`Suffices`): another deletion of it stays, the last
text that was written over it stays, and the votes that stay have the tally of them all
(`prune_shows_iff`).
-/

namespace Quorum

open Js

/-! ### Replays as maps over the lines -/

theorem keys_applyMutation {messages messages' : Dict Str Message} {entry : Value}
    (h : applyMutation messages entry = .ok messages') : messages'.keys = messages.keys := by
  rw [applyMutation_eq, bind_eq_ok] at h
  obtain ⟨t, -, h⟩ := h
  cases t with
  | none =>
    cases h
    rfl
  | some id =>
    dsimp only at h
    unfold rewrite at h
    cases hg : messages.get? id with
    | none =>
      rw [hg] at h
      cases h
      rfl
    | some m =>
      rw [hg] at h
      obtain ⟨m', -, rfl⟩ := map_eq_ok.mp h
      rw [Dict.keys_set, if_pos (by rw [Dict.has_eq_isSome, hg]; rfl)]

/-- A replay keeps the lines in their places. -/
theorem keys_replay {log : ChannelLog} {shown : Dict Str Message} (h : replay log = .ok shown) :
    shown.keys = log.base.keys := by
  rw [replay_eq] at h
  exact foldlM_invariant (P := fun messages => messages.keys = log.base.keys)
    (fun _ _ _ _ hkeys hstep => (keys_applyMutation hstep).trans hkeys) rfl h

/-- A line after the mutations that point at it, as it was where these throw. -/
def lineAfter (entries : List Value) (id : Str) (m : Message) : Message :=
  (replayLine id entries m).toOption.getD m

theorem replayLine_eq_lineAfter {entries : List Value} {id : Str} {m m' : Message}
    (h : replayLine id entries m = .ok m') : lineAfter entries id m = m' := by
  rw [lineAfter, h]
  rfl

theorem ts_lineAfter (entries : List Value) (id : Str) (m : Message) :
    (lineAfter entries id m).ts = m.ts := by
  unfold lineAfter
  cases h : replayLine id entries m with
  | error e => rfl
  | ok m' => exact (same_replayLine h).2.2

/-- A replay that returns has replayed every line. -/
theorem replay_eq_mapValues {log : ChannelLog} {shown : Dict Str Message}
    (h : replay log = .ok shown) : shown = log.base.mapValues (lineAfter log.replayed) := by
  refine Dict.eq_of_keys ((keys_replay h).trans (Dict.keys_mapValues _ _).symm) fun id => ?_
  rw [Dict.get?_mapValues]
  cases hm : log.base.get? id with
  | none =>
    rw [Option.map_none, Dict.get?_eq_none_iff, ← Bool.not_eq_true, Dict.has_iff_mem_keys,
      keys_replay h, ← Dict.has_iff_mem_keys, Bool.not_eq_true, ← Dict.get?_eq_none_iff, hm]
  | some m =>
    obtain ⟨m', hline, hshown⟩ := replay_line h hm
    rw [hshown, Option.map_some, replayLine_eq_lineAfter hline]

/-! ### What pruning drops -/

/-- The mutation is older than the cutoff. -/
def stale (beforeTs : Number) (entry : Value) : Bool :=
  match (entry.get (lit "ts")).toNum with
  | .ok ts => ts.lt beforeTs
  | .error _ => false

/-- Every line has a time. -/
def ChannelLog.Dated (log : ChannelLog) : Prop :=
  ∀ id m, log.base.get? id = some m → m.ts ≠ .nan

section

variable (log : ChannelLog) (beforeTs : Number)

theorem mutations_pruneLog : (pruneLog log beforeTs).1.mutations =
    log.mutations.filter fun _ mu => !stale beforeTs mu.entry := by
  unfold pruneLog stale
  dsimp only
  congr 1
  funext _ mu
  cases (mu.entry.get (lit "ts")).toNum <;> rfl

theorem replayed_pruneLog : (pruneLog log beforeTs).1.replayed =
    log.replayed.filter fun entry => !stale beforeTs entry := by
  have hvalues : (pruneLog log beforeTs).1.mutations.values =
      log.mutations.values.filter fun mu => !stale beforeTs mu.entry := by
    rw [mutations_pruneLog, Dict.values, Dict.values, List.filter_map]
    rfl
  unfold ChannelLog.replayed ChannelLog.ordered
  rw [hvalues, filter_insertionSort, List.filter_map]
  rfl

end

/-! ### What is shown -/

/-- Leaving lines out before or after they are put in order comes to the same. -/
theorem sort_filter {l : List Message} (hl : ∀ m ∈ l, m.ts ≠ .nan) (p : Message → Bool) :
    (l.filter p).insertionSort (fun a b => a.ts.cmpSub b.ts ≠ .gt) =
      (l.insertionSort fun a b => a.ts.cmpSub b.ts ≠ .gt).filter p := by
  rw [sort_by_rank hl, sort_by_rank fun m hm => hl m (List.mem_of_mem_filter hm),
    filter_insertionSort]

section

variable {log : ChannelLog} {beforeTs : Number}

theorem base_pruneLog : (pruneLog log beforeTs).1.base =
    log.base.filter fun _ m => !m.ts.lt beforeTs := rfl

/-- The lines of a replay of the pruned log. -/
theorem values_replay_pruneLog {shown : Dict Str Message}
    (h : replay (pruneLog log beforeTs).1 = .ok shown) :
    shown.values = (log.base.entries.filter fun p => !p.2.ts.lt beforeTs).map fun p =>
      lineAfter (pruneLog log beforeTs).1.replayed p.1 p.2 := by
  rw [replay_eq_mapValues h, Dict.values, Dict.mapValues, List.map_map]
  rfl

/-- The lines of a replay of the log that stay. -/
theorem filter_values_replay {shown : Dict Str Message} (h : replay log = .ok shown) :
    (shown.values.filter fun m => !m.ts.lt beforeTs) =
      (log.base.entries.filter fun p => !p.2.ts.lt beforeTs).map fun p =>
        lineAfter log.replayed p.1 p.2 := by
  rw [replay_eq_mapValues h, Dict.values, Dict.mapValues, List.map_map, List.filter_map]
  congr 1
  refine List.filter_congr fun p _ => ?_
  simp only [Function.comp_apply, ts_lineAfter]

/-- Two replays of the lines that stay are shown alike just if they are the same on each. -/
theorem shows_iff (hdated : log.Dated) {shown shown' : Dict Str Message}
    (h : replay log = .ok shown) (h' : replay (pruneLog log beforeTs).1 = .ok shown') :
    shown'.values.insertionSort (fun a b => a.ts.cmpSub b.ts ≠ .gt) =
        (shown.values.insertionSort fun a b => a.ts.cmpSub b.ts ≠ .gt).filter
          (fun m => !m.ts.lt beforeTs) ↔
      ∀ id m, log.base.get? id = some m → m.ts.lt beforeTs = false →
        lineAfter (pruneLog log beforeTs).1.replayed id m = lineAfter log.replayed id m := by
  rw [← sort_filter fun m hm => ts_ne_nan_of_replay hdated h hm, filter_values_replay h,
    values_replay_pruneLog h', insertionSort_map_eq_iff]
  · simp only [List.mem_filter, Dict.mem_entries_iff, Prod.forall, and_imp, Bool.not_eq_true']
  · intro p _ q _
    simp only [ts_lineAfter]

end

/-! ### What may be dropped -/

/-- Of all mutations of a line, it does no harm to keep only these. -/
structure Suffices (id : Str) (m : Message) (all kept : List Value) : Prop where
  /-- If the line is deleted, a deletion is kept. -/
  del : all.any (mutates (lit "del") id) = true → kept.any (mutates (lit "del") id) = true
  /-- What is kept can be read, where no deletion that is kept comes before it. -/
  readable : ∀ before entry after, kept = before ++ entry :: after →
    target entry = .ok (some id) →
    before.any (mutates (lit "del") id) = true ∨ unreadable m entry = false
  /-- The last text that was written over a line of text is the last one that is kept. -/
  text : all.any (mutates (lit "del") id) = false → m.hasText = true →
    lastText id kept = lastText id all
  /-- The votes that are kept have the tally of all. -/
  votes : all.any (mutates (lit "del") id) = false →
    tally REACT_MAX (votesOn id kept) = tally REACT_MAX (votesOn id all)

theorem rewritten_inj {m : Message} (hfresh : m.Fresh) (htext : m.hasText = true)
    {a b : Option Str} {reacts reacts' : Dict Str (List Value)}
    (h : ({ m.rewritten a with reacts } : Message) = { m.rewritten b with reacts := reacts' }) :
    a = b := by
  have hbody := congrArg Message.body h
  have hedited := congrArg Message.edited h
  cases a <;> cases b <;> simp_all [Message.rewritten, hfresh.edited]

/-- **On one line.**  Replaying the mutations that are kept comes to the same as replaying all just if
the others do no harm. -/
theorem replayLine_eq_iff_suffices {id : Str} {m : Message} {all kept : List Value}
    (hfresh : m.Fresh) (hkept : ∀ entry ∈ kept, entry ∈ all)
    (htargets : ∀ entry ∈ all, ∃ t, target entry = .ok t)
    (hall : ∃ r, replayLine id all m = .ok r) :
    replayLine id kept m = replayLine id all m ↔ Suffices id m all kept := by
  obtain ⟨r, hall⟩ := hall
  obtain rfl := replayLine_eq hfresh hall
  have hok := replayLine_ok_iff id [] (fun entry hentry => htargets entry (hkept entry hentry))
    hfresh.deleted
  rw [hfresh.lineAt_nil] at hok
  rw [hall]
  constructor
  · intro h
    have heq := replayLine_eq hfresh h
    have hdel := congrArg Message.deleted heq
    rw [deleted_lineAt id all hfresh.deleted, deleted_lineAt id kept hfresh.deleted] at hdel
    refine ⟨fun hd => hdel ▸ hd, hok.mp ⟨_, h⟩, fun hd htext => ?_, fun hd => ?_⟩ <;>
      rw [lineAt, lineAt, if_neg (by simp [hd]), if_neg (by simp [← hdel, hd])] at heq
    · exact (rewritten_inj hfresh htext heq).symm
    · exact (congrArg Message.reacts heq).symm
  · intro h
    obtain ⟨r, hr⟩ := hok.mpr h.readable
    rw [hr, replayLine_eq hfresh hr, lineAt, lineAt]
    cases hd : all.any (mutates (lit "del") id) with
    | true => rw [if_pos (h.del hd), if_pos rfl]
    | false =>
      have hd' : kept.any (mutates (lit "del") id) = false := by
        rw [List.any_eq_false] at hd ⊢
        exact fun entry hentry => hd entry (hkept entry hentry)
      rw [hd', if_neg Bool.false_ne_true, if_neg Bool.false_ne_true, h.votes hd]
      cases htext : m.hasText with
      | true => rw [h.text hd htext]
      | false =>
        have hsame : ∀ text, m.rewritten text = m := by
          rintro (- | text) <;> simp [Message.rewritten, htext]
        rw [hsame, hsame]

/-- No mutation has touched the lines of the log. -/
def ChannelLog.Fresh (log : ChannelLog) : Prop := ∀ id m, log.base.get? id = some m → m.Fresh

/-- No call touches a line that is written. -/
theorem fresh_runCalls (place : Place) (calls : List Call) : (runCalls place calls).Fresh := by
  intro id m hm
  rw [runCalls_eq_runSteps] at hm
  exact fresh_of_origin ((origin place _).line id m hm)

/-- A log that is built by calls has dated lines, if its notices are dated. -/
theorem dated_runCalls (place : Place) {calls : List Call}
    (hcalls : ∀ text ts, Call.addSystemMessage text ts ∈ calls → ts ≠ .nan) :
    (runCalls place calls).Dated := by
  intro id m hm
  rw [runCalls_eq_runSteps] at hm
  obtain ⟨item, -, hcontent, -⟩ | ⟨text, ts, n, hnotice, -, rfl⟩ := (origin place _).line id m hm
  · exact ts_ne_nan_of_contentOf hcontent
  · obtain ⟨call, hcall, hstep⟩ := List.mem_flatMap.mp hnotice
    cases call with
    | arrive a | pruneLog beforeTs => simp [Call.steps] at hstep
    | addSystemMessage text' ts' =>
      rw [Call.steps, List.mem_singleton] at hstep
      cases hstep
      exact hcalls text ts hcall

/-- A deletion by the author of a line. -/
def delEntry (sender : Str) (ts : Number) (lineTs : Number) : Value :=
  .obj 5 [(lit "k", .str (lit "del")), (lit "to", .obj 6 [(lit "ts", .num lineTs)]),
    (lit "ts", .num ts), (lit "sender", .str sender)]

/-- A line with an edit by a clock that is behind, and a later one. -/
def editedAgain : List Call :=
  [.arrive (.addEntries
    [⟨some 1, chatEntry (lit "alice") (.ofRat 5) (lit "hello"), .signed⟩,
      ⟨some 2, editEntry (lit "alice") (.ofRat 2) (.ofRat 5) (lit "draft"), .signed⟩,
      ⟨some 3, editEntry (lit "alice") (.ofRat 6) (.ofRat 5) (lit "final"), .signed⟩])]

/-- A deletion that is dated before the line it deletes. -/
def backdated : List Call :=
  [.arrive (.addEntries
    [⟨some 1, chatEntry (lit "alice") (.ofRat 5) (lit "hello"), .signed⟩,
      ⟨some 2, delEntry (lit "alice") (.ofRat 2) (.ofRat 5), .signed⟩])]

end Quorum
