import Quorum.Js.Sort
import Quorum.Log.Reactions

/-!
# Who may change a line

Edits and deletions point at a line of their own signed author, and identities of lines by
different authors never coincide: neither do identities of lines and of notices, as long as no
handle contains a colon.  So what a line says and whether it is edited or deleted is decided by its
author's mutations alone, a handle stands under a reaction only if it signed one for that line, and
an entry that was not verified reaches no line but the one under its own identity.
-/

namespace Quorum

open Js

/-! ### Identities do not collide -/

/-- The handle of an entry is a string without a colon. -/
def PlainSender (entry : Value) : Prop :=
  ∃ sender, entry.get (lit "sender") = .str sender ∧ unit ':' ∉ sender

variable {sender : Str} {place : Place} {id : Str} {entry : Value} {ts : Number}

/-- No line of a plain handle has the identity of a notice. -/
theorem messageId_ne_systemId (h : unit ':' ∉ sender) (ts ts' : Number) (n : ℕ) :
    messageId sender ts ≠ systemId ts' n := by
  intro heq
  obtain ⟨-, htail⟩ := append_cons_inj_of_not_mem h (by decide) heq
  apply Number.colon_not_mem_toStr ts
  rw [htail]
  exact List.mem_append_right _ (List.mem_cons_self ..)

/-- An edit or deletion that points at a line of a log with plain handles is by its author. -/
theorem sender_of_ownTarget {steps : List Step} {m : Message} (hline : LineFrom place steps id m)
    (hplain : PlainSender entry)
    (h : ownTarget entry = .ok id) : entry.get (lit "sender") = .str m.sender := by
  obtain ⟨sender, hsender, hcolon⟩ := hplain
  obtain ⟨ts, -, h⟩ := bind_eq_ok.mp h
  rw [hsender] at h
  obtain rfl : messageId sender ts = id := Except.ok.inj h
  rcases hline with ⟨item, -, -, hid⟩ | ⟨text, ts', n, -, hid, -⟩
  · rw [hsender, (messageId_inj hid).1]
  · exact absurd hid (messageId_ne_systemId hcolon ts ts' n)

/-! ### What a reader sees of a line's body -/

/-- What a line says, and whether it is marked edited or deleted. -/
def SameText (r r' : Message) : Prop :=
  r.body = r'.body ∧ r.edited = r'.edited ∧ r.deleted = r'.deleted

/-- An edit or a deletion of the line under an identity. -/
def Rewrites (id : Str) (entry : Value) : Prop :=
  mutates (lit "edit") id entry = true ∨ mutates (lit "del") id entry = true

theorem Rewrites.ownTarget (h : Rewrites id entry) :
    ownTarget entry = .ok id := by
  have hown : (hasKind (lit "edit") entry || hasKind (lit "del") entry) = true ∧
      target entry = .ok (some id) := by
    rcases h with h | h <;>
      rw [mutates, Bool.and_eq_true, decide_eq_true_eq] at h <;> simp [h]
  rw [target, if_pos hown.1] at hown
  obtain ⟨id', hid', hsome⟩ := map_eq_ok.mp hown.2
  exact Option.some.inj hsome ▸ hid'

/-- Leaving out mutations that are no edits or deletions of a line does not change what it says. -/
theorem sameText_lineAt_filter {entries : List Value} {p : Value → Bool} (m : Message)
    (hkept : ∀ entry ∈ entries, Rewrites id entry → p entry = true) :
    SameText (lineAt id entries m) (lineAt id (entries.filter p) m) := by
  have hedits : (entries.filter p).filter (mutates (lit "edit") id) =
      entries.filter (mutates (lit "edit") id) := by
    rw [List.filter_filter]
    refine List.filter_congr fun entry hentry => ?_
    cases hmut : mutates (lit "edit") id entry with
    | false => rfl
    | true => rw [hkept entry hentry (.inl hmut), Bool.true_and]
  have hdel : (entries.filter p).any (mutates (lit "del") id) =
      entries.any (mutates (lit "del") id) := by
    rw [Bool.eq_iff_iff, List.any_eq_true, List.any_eq_true]
    exact ⟨fun ⟨e, he, hmut⟩ => ⟨e, List.mem_of_mem_filter he, hmut⟩,
      fun ⟨e, he, hmut⟩ => ⟨e, List.mem_filter.mpr ⟨he, hkept e he (.inr hmut)⟩, hmut⟩⟩
  unfold lineAt
  rw [hdel, lastText, lastText, hedits]
  split <;> exact ⟨rfl, rfl, rfl⟩

/-! ### The author's mutations alone -/

/-- An entry in the name of this handle. -/
def isBy (sender : Str) (entry : Value) : Bool :=
  (entry.get (lit "sender")).strictEq (.str sender)

/-- The log without the mutations of everyone but one handle. -/
def ChannelLog.onlyBy (log : ChannelLog) (sender : Str) : ChannelLog :=
  { log with mutations := log.mutations.filter fun _ mu => isBy sender mu.entry }

theorem isBy_iff :
    isBy sender entry = true ↔ entry.get (lit "sender") = .str sender := Value.strictEq_str

theorem replayed_onlyBy (log : ChannelLog) (sender : Str) :
    (log.onlyBy sender).replayed = log.replayed.filter (isBy sender) := by
  have hvalues : (log.onlyBy sender).mutations.values =
      log.mutations.values.filter fun mu => isBy sender mu.entry := by
    rw [ChannelLog.onlyBy, Dict.values, Dict.values, List.filter_map]
    rfl
  rw [ChannelLog.replayed, ChannelLog.ordered, hvalues, filter_insertionSort,
    ChannelLog.replayed, ChannelLog.ordered, List.filter_map]
  rfl

/-- A line of a log with plain handles reads the same without other people's mutations. -/
theorem sameText_onlyBy {steps : List Step}
    (hplain : ∀ item, Step.entry item ∈ steps → PlainSender item.entry)
    {shown shown' : Dict Str Message} {m : Message}
    (hm : (runSteps place steps).base.get? id = some m)
    (hs : replay (runSteps place steps) = .ok shown)
    (hs' : replay ((runSteps place steps).onlyBy m.sender) = .ok shown') :
    ∃ r r', shown.get? id = some r ∧ shown'.get? id = some r' ∧ SameText r r' := by
  obtain ⟨r, hline, hr⟩ := replay_line hs hm
  obtain ⟨r', hline', hr'⟩ := replay_line hs' (show ((runSteps place steps).onlyBy
    m.sender).base.get? id = some m from hm)
  rw [replayed_onlyBy] at hline'
  have hfresh := fresh_of_origin ((origin place steps).line id m hm)
  refine ⟨r, r', hr, hr', ?_⟩
  rw [replayLine_eq hfresh hline, replayLine_eq hfresh hline']
  refine sameText_lineAt_filter m fun entry hentry hrewrites => ?_
  obtain ⟨item, hitem, -, rfl⟩ := replayed_origin hentry
  exact isBy_iff.mpr (sender_of_ownTarget ((origin place steps).line id m hm) (hplain item hitem)
    hrewrites.ownTarget)

/-! ### Entries that were not verified -/

/-- Two logs that agree on the line under an identity and on every mutation. -/
structure AgreeAt (id : Str) (a b : ChannelLog) : Prop where
  base : a.base.get? id = b.base.get? id
  mutations : a.mutations = b.mutations
  localSeq : a.localSeq = b.localSeq

/-- Logs that agree on a line and on the mutations show the same line. -/
theorem AgreeAt.shown {a b : ChannelLog} (h : AgreeAt id a b)
    {shown shown' : Dict Str Message} (ha : replay a = .ok shown) (hb : replay b = .ok shown') :
    shown.get? id = shown'.get? id := by
  have hreplayed : a.replayed = b.replayed := by
    rw [ChannelLog.replayed, ChannelLog.ordered, h.mutations]
    rfl
  exact shown_eq ha hb h.base fun m => by rw [hreplayed]

/-- An entry that was not verified leaves every line alone but the one it states. -/
theorem agreeAt_fold1 {log : ChannelLog} {item : Item}
    (hauth : item.auth ≠ .signed) (hid : ∀ m, contentOf place item = some m → m.id ≠ id) :
    AgreeAt id (fold1 place log item) log := by
  have hmut : mutationOf log.localSeq item = none := by
    rw [mutationOf, if_neg]
    intro h
    rw [Item.isMutation, Bool.and_eq_true, decide_eq_true_eq] at h
    exact hauth h.2
  cases hc : contentOf place item with
  | some m =>
    rw [fold1_of_content hc]
    refine ⟨?_, by simp, by simp⟩
    rw [store_get?, if_neg (hid m hc), noteSeq_base]
  | none =>
    obtain ⟨hbase, hm, hl⟩ := fold1_of_neither hc hmut
    exact ⟨by rw [hbase], hm, hl⟩

/-- **Step.**  Logs that agree on a line go on agreeing on it, whatever happens to both. -/
theorem agreeAt_step {a b : ChannelLog}
    (hcolon : unit ':' ∉ sender) (h : AgreeAt (messageId sender ts) a b) (step : Step) :
    AgreeAt (messageId sender ts) (step.apply place a) (step.apply place b) := by
  cases step with
  | entry item =>
    have hbase : (fold1 place a item).base.get? (messageId sender ts) =
        (fold1 place b item).base.get? (messageId sender ts) := by
      rw [fold1_get?, fold1_get?, h.base]
    cases hc : contentOf place item with
    | some m =>
      refine ⟨hbase, ?_, ?_⟩
      · simp only [Step.apply, fold1_of_content hc, store_mutations, noteSeq_mutations, h.mutations]
      · simp only [Step.apply, fold1_of_content hc, store_localSeq, noteSeq_localSeq, h.localSeq]
    | none =>
      cases hm : mutationOf a.localSeq item with
      | some mu =>
        have ha := fold1_of_mutation place hm
        have hb := fold1_of_mutation place (h.localSeq ▸ hm)
        refine ⟨hbase, ?_, ?_⟩
        · simp only [Step.apply, ha.2.1, hb.2.1, h.mutations]
        · simp only [Step.apply, ha.2.2, hb.2.2, h.mutations, h.localSeq]
      | none =>
        have ha := fold1_of_neither hc hm
        have hb := fold1_of_neither hc (h.localSeq ▸ hm)
        refine ⟨hbase, ?_, ?_⟩
        · simp only [Step.apply, ha.2.1, hb.2.1, h.mutations]
        · simp only [Step.apply, ha.2.2, hb.2.2, h.localSeq]
  | notice text t =>
    refine ⟨?_, h.mutations, h.localSeq⟩
    have hne := fun n => (messageId_ne_systemId hcolon ts t n).symm
    change (a.base.set _ _).get? _ = (b.base.set _ _).get? _
    rw [Dict.get?_set_of_ne _ _ (hne _), Dict.get?_set_of_ne _ _ (hne _), h.base]
  | prune beforeTs =>
    refine ⟨?_, ?_, h.localSeq⟩
    · change (a.base.filter _).get? _ = (b.base.filter _).get? _
      rw [Dict.get?_filter, Dict.get?_filter, h.base]
    · simp only [Step.apply, pruneLog, h.mutations]

/-- **Run.**  A log with an entry that was not verified agrees on every other line with the log
without it. -/
theorem agreeAt_runSteps {before after : List Step} {item : Item} (hcolon : unit ':' ∉ sender)
    (hauth : item.auth ≠ .signed)
    (hid : ∀ m, contentOf place item = some m → m.id ≠ messageId sender ts) :
    AgreeAt (messageId sender ts) (runSteps place (before ++ .entry item :: after))
      (runSteps place (before ++ after)) := by
  have hrun : ∀ (l : List Step) (a b : ChannelLog), AgreeAt (messageId sender ts) a b →
      AgreeAt (messageId sender ts) (l.foldl (Step.apply place) a)
        (l.foldl (Step.apply place) b) := by
    intro l
    induction l with
    | nil => exact fun _ _ h => h
    | cons step l ih => exact fun a b h => ih _ _ (agreeAt_step hcolon h step)
  rw [runSteps, runSteps, List.foldl_append, List.foldl_append, List.foldl_cons]
  exact hrun after _ _ (agreeAt_fold1 hauth hid)

/-! ### Authority -/

/-- A reaction that names a line: its author and its timestamp. -/
def NamesLine (entry : Value) (sender : Str) (ts : Number) : Prop :=
  ((entry.get (lit "to")).get (lit "sender")).text = .ok sender ∧
    ((entry.get (lit "to")).get (lit "ts")).toNum = .ok ts

theorem namesLine_of_reactTarget
    (h : reactTarget entry = .ok (messageId sender ts)) : NamesLine entry sender ts := by
  obtain ⟨s, hs, h⟩ := bind_eq_ok.mp h
  obtain ⟨t, ht, h⟩ := bind_eq_ok.mp h
  obtain ⟨rfl, rfl⟩ := messageId_inj (Except.ok.inj h)
  exact ⟨hs, ht⟩

/-- What holds of every line of a log with plain handles, and of `shown`, the log as it renders. -/
structure Authority (place : Place) (steps : List Step) (shown : Dict Str Message) : Prop where
  /-- What a line says and its edited and deleted marks are those without the mutations of
  everyone but its author. -/
  own_text : ∀ id m, (runSteps place steps).base.get? id = some m →
    ∀ shown', replay ((runSteps place steps).onlyBy m.sender) = .ok shown' →
      ∃ r r', shown.get? id = some r ∧ shown'.get? id = some r' ∧ SameText r r'
  /-- A handle stands under a reaction only if a verified reaction by it points at the line. -/
  signed_reaction : ∀ id m, (runSteps place steps).base.get? id = some m →
    ∀ r, shown.get? id = some r → ∀ emo l, r.reacts.get? emo = some l → ∀ w ∈ l,
      ∃ item, Step.entry item ∈ steps ∧ item.auth = .signed ∧
        item.entry.get (lit "k") = .str (lit "react") ∧ item.entry.get (lit "sender") = w ∧
        reactTarget item.entry = .ok id ∧ (m.system = false → NamesLine item.entry m.sender m.ts)
  /-- Folding in an entry that was not verified changes no line but the one it states. -/
  unverified_fold : ∀ item : Item, item.auth ≠ .signed →
    ∀ id, (∀ m, contentOf place item = some m → messageId m.sender m.ts ≠ id) →
      ∀ shown', replay (fold1 place (runSteps place steps) item) = .ok shown' →
        shown'.get? id = shown.get? id
  /-- A run with an entry that was not verified shows the lines of the run without it, but for the
  one it states. -/
  unverified_run : ∀ before item after, steps = before ++ .entry item :: after →
    item.auth ≠ .signed → ∀ sender ts, unit ':' ∉ sender →
      (∀ m, contentOf place item = some m → ¬(m.sender = sender ∧ m.ts = ts)) →
      ∀ shown', replay (runSteps place (before ++ after)) = .ok shown' →
        shown'.get? (messageId sender ts) = shown.get? (messageId sender ts)

/-- A line with a reaction and an unsigned line after it. -/
def reactedThenUnsigned : List Step :=
  [.entry ⟨some 1, chatEntry (lit "alice") (.ofRat 5) (lit "hi"), .signed, false⟩,
    .entry ⟨some 2, reactEntry (lit "bob") (.ofRat 6) (lit "+1") (lit "alice") (.ofRat 5),
      .signed, false⟩,
    .entry ⟨some 3, chatEntry (lit "eve") (.ofRat 7) (lit "psst"), .unsigned, false⟩]

end Quorum
