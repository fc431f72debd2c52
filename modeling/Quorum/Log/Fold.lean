import Quorum.Js.Equiv.Number
import Quorum.Log

/-!
# What folding an entry does

`addEntry` reads an item without looking at the log: the item is content (`contentOf`), a mutation
(`mutationOf`), nothing, or something the language throws on (`throws`).  The lemmas here say once
what each of them does to the log, and turn `addEntries` into a plain left fold over the items it
gets to (`reached`), which is what every argument about runs is by induction on.

Content under different identities does not interact, so the line stored under one identity is
the outcome of that identity's own copies (`pick`): the first copy from a page, or else the first
local echo.  From this follows when a signed line stands.
-/

namespace Quorum

open Js

/-! ### Identities -/

/-- A line's identity determines its author and timestamp: the text of a number has no colon. -/
theorem messageId_inj {s s' : Str} {t t' : Number} (h : messageId s t = messageId s' t') :
    s = s' ∧ t = t' := by
  obtain ⟨hs, ht⟩ := append_cons_inj_of_not_mem_right (Number.colon_not_mem_toStr t)
    (Number.colon_not_mem_toStr t') h
  exact ⟨hs, Number.toStr_injective ht⟩

theorem messageId_eq_iff {s s' : Str} {t t' : Number} :
    messageId s t = messageId s' t' ↔ s = s' ∧ t = t' :=
  ⟨messageId_inj, fun ⟨hs, ht⟩ => by rw [hs, ht]⟩

/-- The identity a message is stored under. -/
def Message.id (m : Message) : Str := messageId m.sender m.ts

/-! ### Reading an item -/

/-- An item the fold looks at: not empty, and not in somebody else's name. -/
def Item.considered (item : Item) : Bool := item.entry.truthy && item.auth ≠ .forged

theorem Item.not_considered_iff {item : Item} :
    item.considered = false ↔ (!item.entry.truthy || item.auth = .forged) = true := by
  rw [considered]
  cases item.entry.truthy <;> simp

theorem Item.considered_iff {item : Item} :
    item.considered = true ↔ ¬(!item.entry.truthy || item.auth = .forged) = true := by
  rw [← not_considered_iff, Bool.not_eq_false]

/-- An item that is content, readable or not. -/
def Item.isContent (item : Item) : Bool := item.considered && isContentKind (kindOf item.entry)

/-- An item that is a verified mutation, readable or not. -/
def Item.isMutation (item : Item) : Bool :=
  item.considered && isMutationKind (kindOf item.entry) && item.auth = .signed

/-- The message an item stores, if it is content that can be read. -/
def contentOf (place : Place) (item : Item) : Option Message :=
  if item.isContent then
    match entryToMessage item.entry place item.auth item.seq with
    | .ok (some m) => some { m with isLocal := item.isLocal }
    | _ => none
  else none

/-- The mutation an item files, if it is one that can be read; `next` is the order number it gets
when the relay has not numbered it. -/
def mutationOf (next : ℕ) (item : Item) : Option Mutation :=
  if item.isMutation then
    match h : mutationId item.entry with
    | .ok id => some { seq := item.seq.getD next, entry := item.entry, id, readable := h }
    | .error _ => none
  else none

/-- An item that ends the loop with an exception. -/
def throws (place : Place) (item : Item) : Bool :=
  (item.isContent && !(entryToMessage item.entry place item.auth item.seq).isOk) ||
    (item.isMutation && !(mutationId item.entry).isOk)

/-- The items that `addEntries` gets to: all of them, or those up to the first that throws. -/
def reached (place : Place) : List Item → List Item
  | [] => []
  | item :: items => item :: if throws place item then [] else reached place items

variable {place : Place} {item : Item}

/-- A readable entry becomes a message with the author, timestamp and body it states and the
verdict and seq it was handed with. -/
theorem entryToMessage_some {entry : Value} {auth : Verdict} {seq : Option ℕ}
    {m : Message} (h : entryToMessage entry place auth seq = .ok (some m)) :
    ∃ sender ts reply body, (entry.get (lit "sender")).text = .ok sender ∧
      (entry.get (lit "ts")).toNum = .ok ts ∧ entryBody entry = .ok body ∧
      m = { place, sender, ts, body := some body, reply, auth := some auth, seq } := by
  unfold entryToMessage at h
  cases hsender : (entry.get (lit "sender")).text with
  | error e => rw [hsender] at h; cases h
  | ok sender =>
    cases hts : (entry.get (lit "ts")).toNum with
    | error e => rw [hsender, hts] at h; cases h
    | ok ts =>
      simp only [hsender, hts, bind, Except.bind] at h
      split at h
      · cases h
      cases hreply : normalizeReply (entry.get (lit "reply")) with
      | error e => rw [hreply] at h; cases h
      | ok reply =>
        cases hbody : entryBody entry with
        | error e => rw [hreply, hbody] at h; cases h
        | ok body =>
          rw [hreply, hbody] at h
          cases h
          exact ⟨sender, ts, reply, body, rfl, rfl, rfl, rfl⟩

/-- The number of an entry is only noted in its message. -/
theorem entryToMessage_seq (entry : Value) (place : Place) (auth : Verdict) (seq : Option ℕ) :
    entryToMessage entry place auth seq =
      (entryToMessage entry place auth none).map (Option.map fun m => { m with seq }) := by
  unfold entryToMessage
  cases (entry.get (lit "sender")).text with
  | error e => rfl
  | ok sender =>
    cases (entry.get (lit "ts")).toNum with
    | error e => rfl
    | ok ts =>
      simp only [bind, Except.bind]
      split
      · rfl
      · cases normalizeReply (entry.get (lit "reply")) with
        | error e => rfl
        | ok reply =>
          cases entryBody entry with
          | error e => rfl
          | ok body => rfl

/-- A stored message carries its item's verdict, seq and origin, and no mutation yet. -/
theorem contentOf_some {m : Message} (h : contentOf place item = some m) :
    ∃ sender ts reply body, (item.entry.get (lit "sender")).text = .ok sender ∧
      (item.entry.get (lit "ts")).toNum = .ok ts ∧
      m = { place, sender, ts, body := some body, reply, auth := some item.auth, seq := item.seq,
            isLocal := item.isLocal } := by
  unfold contentOf at h
  split at h
  next =>
    split at h
    next m' hm =>
      obtain ⟨sender, ts, reply, body, hsender, hts, -, rfl⟩ := entryToMessage_some hm
      exact ⟨sender, ts, reply, body, hsender, hts, (Option.some.inj h).symm⟩
    next => cases h
  next => cases h

/-- No kind both creates and changes a message. -/
theorem isContentKind_of_isMutationKind {k : Value} (h : isMutationKind k = true) :
    isContentKind k = false := by
  cases k with
  | str s =>
    simp only [isMutationKind, Bool.or_eq_true, decide_eq_true_eq] at h
    rcases h with (rfl | rfl) | rfl <;> decide
  | _ => rfl

theorem isContent_of_isMutation (h : item.isMutation = true) :
    item.isContent = false := by
  rw [Item.isMutation, Bool.and_eq_true, Bool.and_eq_true] at h
  rw [Item.isContent, isContentKind_of_isMutationKind h.1.2, Bool.and_false]

theorem isMutation_of_mutationOf {next : ℕ} {mu : Mutation}
    (h : mutationOf next item = some mu) : item.isMutation = true := by
  unfold mutationOf at h
  split at h
  next hm => exact hm
  next => cases h

theorem contentOf_eq_none {next : ℕ} {mu : Mutation}
    (h : mutationOf next item = some mu) : contentOf place item = none := by
  rw [contentOf, isContent_of_isMutation (isMutation_of_mutationOf h)]
  rfl

/-! ### One item -/

def fold1 (place : Place) (log : ChannelLog) (item : Item) : ChannelLog :=
  (addEntry place log item).1

/-- File a mutation unless its identity is taken. -/
def fileNew (mutations : Dict Str Mutation) (mu : Mutation) : Dict Str Mutation :=
  if mutations.has mu.id then mutations else mutations.set mu.id mu

@[simp] theorem noteSeq_base (log : ChannelLog) (seq : Option ℕ) :
    (log.noteSeq seq).base = log.base := by
  cases seq <;> rfl

@[simp] theorem noteSeq_mutations (log : ChannelLog) (seq : Option ℕ) :
    (log.noteSeq seq).mutations = log.mutations := by
  cases seq <;> rfl

@[simp] theorem noteSeq_localSeq (log : ChannelLog) (seq : Option ℕ) :
    (log.noteSeq seq).localSeq = log.localSeq := by
  cases seq <;> rfl

@[simp] theorem store_mutations (log : ChannelLog) (m : Message) :
    (log.store m).1.mutations = log.mutations := by
  unfold ChannelLog.store
  dsimp only
  split <;> [split; skip] <;> rfl

@[simp] theorem store_localSeq (log : ChannelLog) (m : Message) :
    (log.store m).1.localSeq = log.localSeq := by
  unfold ChannelLog.store
  dsimp only
  split <;> [split; skip] <;> rfl

section

variable {place : Place} {log : ChannelLog} {item : Item}

/-- Content moves the cursors and is stored. -/
theorem fold1_of_content {m : Message} (h : contentOf place item = some m) :
    fold1 place log item = ((log.noteSeq item.seq).store m).1 := by
  unfold contentOf at h
  split at h
  next hc =>
    rw [Item.isContent, Item.considered, Bool.and_eq_true, Bool.and_eq_true] at hc
    obtain ⟨⟨htruthy, hauth⟩, hkind⟩ := hc
    split at h
    next m' hm =>
      obtain rfl := Option.some.inj h
      simp [fold1, addEntry, htruthy, of_decide_eq_true hauth, hkind, hm]
    next => cases h
  next => cases h

/-- A mutation moves the cursors and is filed; only a new one without a relay seq takes an order
number. -/
theorem fold1_of_mutation (place : Place) {mu : Mutation} (h : mutationOf log.localSeq item = some mu) :
    (fold1 place log item).base = log.base ∧
      (fold1 place log item).mutations = fileNew log.mutations mu ∧
      (fold1 place log item).localSeq =
        if item.seq = none ∧ log.mutations.has mu.id = false then log.localSeq + 1
        else log.localSeq := by
  have hm := isMutation_of_mutationOf h
  rw [mutationOf, if_pos hm] at h
  rw [Item.isMutation, Item.considered, Bool.and_eq_true, Bool.and_eq_true,
    Bool.and_eq_true] at hm
  obtain ⟨⟨⟨htruthy, hauth⟩, hkind⟩, hsigned⟩ := hm
  split at h
  next id hid =>
    obtain rfl := Option.some.inj h
    have hcontent := isContentKind_of_isMutationKind hkind
    simp only [fold1, addEntry, htruthy, hcontent, hkind, of_decide_eq_true hsigned,
      Bool.not_true, Bool.false_or, reduceCtorEq, decide_false, Bool.false_eq_true, if_false,
      if_true, ne_eq, not_true_eq_false]
    split
    next e he => rw [hid] at he; cases he
    next id' he =>
      obtain rfl : id = id' := by rw [hid] at he; cases he; rfl
      cases hseq : item.seq <;> by_cases hhas : log.mutations.has id = true <;>
        simp [ChannelLog.file, fileNew, hhas]
  next => cases h

/-- Anything else moves the cursors at most. -/
theorem fold1_of_neither (hc : contentOf place item = none)
    (hm : mutationOf log.localSeq item = none) :
    (fold1 place log item).base = log.base ∧
      (fold1 place log item).mutations = log.mutations ∧
      (fold1 place log item).localSeq = log.localSeq := by
  unfold fold1 addEntry
  split
  next => exact ⟨rfl, rfl, rfl⟩
  next hin =>
    have hcons := Item.considered_iff.mpr hin
    dsimp only
    split
    next hkind =>
      have hcontent : item.isContent = true := by rw [Item.isContent, hcons, hkind]; rfl
      rw [contentOf, if_pos hcontent] at hc
      split
      next => simp
      next => simp
      next m he => rw [he] at hc; cases hc
    next =>
      split
      next hkind =>
        split
        next => simp
        next hauth =>
          have hmut : item.isMutation = true := by
            rw [Item.isMutation, hcons, hkind]
            simpa using hauth
          rw [mutationOf, if_pos hmut] at hm
          split
          next => simp
          next id he =>
            split at hm
            next => cases hm
            next e he' => rw [he] at he'; cases he'
      next => simp

end

/-! ### The line under one identity -/

/-- Which of two copies of a line stays: the first, unless it is an echo and the second is not. -/
def keep : Option Message → Message → Option Message
  | none, m => some m
  | some prior, m => if prior.isLocal && !m.isLocal then some m else some prior

/-- The copies of the line under an identity among some items, in the order they are folded. -/
def copies (place : Place) (id : Str) (items : List Item) : List Message :=
  (items.filterMap (contentOf place)).filter fun m => m.id = id

/-- The copy that stands: the first from a page, or else the first. -/
def pick (l : List Message) : Option Message :=
  (l.find? fun m => !m.isLocal).or l.head?

theorem store_of_none {log : ChannelLog} {m : Message} (hg : log.base.get? m.id = none) :
    (log.store m).1.base = log.base.set m.id m := by
  have hg' : log.base.get? (messageId m.sender m.ts) = none := hg
  simp only [ChannelLog.store, hg']
  rfl

theorem store_of_some {log : ChannelLog} {m prior : Message}
    (hg : log.base.get? m.id = some prior) :
    (log.store m).1.base =
      if prior.isLocal && !m.isLocal then log.base.set m.id m else log.base := by
  have hg' : log.base.get? (messageId m.sender m.ts) = some prior := hg
  simp only [ChannelLog.store, hg']
  split <;> rfl

theorem store_get? (log : ChannelLog) (m : Message) (id : Str) :
    (log.store m).1.base.get? id =
      if m.id = id then keep (log.base.get? id) m else log.base.get? id := by
  by_cases hid : m.id = id
  · subst hid
    rw [if_pos rfl]
    cases hg : log.base.get? m.id with
    | none =>
      rw [store_of_none hg]
      exact Dict.get?_set_self ..
    | some prior =>
      rw [store_of_some hg]
      by_cases hp : (prior.isLocal && !m.isLocal) = true
      · simp only [hp, if_true, keep]
        exact Dict.get?_set_self ..
      · simp only [hp, if_false, keep, Bool.false_eq_true]
        exact hg
  · rw [if_neg hid]
    have hset : (log.base.set m.id m).get? id = log.base.get? id := Dict.get?_set_of_ne _ _ hid
    cases hg : log.base.get? m.id with
    | none => rw [store_of_none hg, hset]
    | some prior =>
      rw [store_of_some hg]
      split
      · exact hset
      · rfl

/-- **Step.**  Folding an item touches the line under an identity only if it is a copy of it. -/
theorem fold1_get? (place : Place) (log : ChannelLog) (item : Item) (id : Str) :
    (fold1 place log item).base.get? id =
      (copies place id [item]).foldl keep (log.base.get? id) := by
  cases hc : contentOf place item with
  | some m =>
    rw [fold1_of_content hc, store_get?, noteSeq_base]
    by_cases hid : m.id = id <;> simp [copies, hc, hid]
  | none =>
    have hbase : (fold1 place log item).base = log.base := by
      cases hm : mutationOf log.localSeq item with
      | some mu => exact (fold1_of_mutation place hm).1
      | none => exact (fold1_of_neither hc hm).1
    simp [copies, hc, hbase]

theorem copies_cons (place : Place) (id : Str) (item : Item) (items : List Item) :
    copies place id (item :: items) = copies place id [item] ++ copies place id items := by
  rw [copies, ← List.singleton_append, List.filterMap_append, List.filter_append]
  rfl

/-- **Run.**  The line under an identity is what its own copies make of it. -/
theorem foldl_fold1_get? (place : Place) (items : List Item) (log : ChannelLog) (id : Str) :
    (items.foldl (fold1 place) log).base.get? id =
      (copies place id items).foldl keep (log.base.get? id) := by
  induction items generalizing log with
  | nil => rfl
  | cons item items ih =>
    rw [List.foldl_cons, ih, fold1_get?, copies_cons place id item items, List.foldl_append]

theorem foldl_keep_some (l : List Message) (prior : Message) :
    l.foldl keep (some prior) =
      if prior.isLocal then (l.find? fun m => !m.isLocal).or (some prior) else some prior := by
  induction l generalizing prior with
  | nil => cases prior.isLocal <;> rfl
  | cons m l ih =>
    rw [List.foldl_cons, keep, List.find?_cons]
    cases hp : prior.isLocal <;> cases hm : m.isLocal <;> simp [ih, hp, hm]

theorem foldl_keep_none (l : List Message) : l.foldl keep none = pick l := by
  cases l with
  | nil => rfl
  | cons m l =>
    rw [List.foldl_cons, keep, foldl_keep_some, pick, List.find?_cons]
    cases hm : m.isLocal <;> simp

/-! ### Pages and runs -/

/-- An item throws exactly when its turn of the loop does, whatever the log. -/
theorem throws_eq (place : Place) (log : ChannelLog) (item : Item) :
    throws place item = !(addEntry place log item).2.isOk := by
  unfold addEntry
  split
  next hout =>
    simp [throws, Item.isContent, Item.isMutation, Item.not_considered_iff.mpr hout, Except.isOk,
      Except.toBool]
  next hin =>
    have hcons := Item.considered_iff.mpr hin
    dsimp only
    split
    next hkind =>
      have hmut : item.isMutation = false := by
        rw [← Bool.not_eq_true]
        intro h
        have := isContent_of_isMutation h
        rw [Item.isContent, hcons, hkind] at this
        cases this
      rw [throws, hmut, Item.isContent, hcons, hkind]
      cases hm : entryToMessage item.entry place item.auth item.seq with
      | error e => rfl
      | ok m => cases m <;> rfl
    next hkind =>
      have hcontent : item.isContent = false := by
        rw [Item.isContent, hcons]
        simpa using hkind
      rw [throws, hcontent, Item.isMutation, hcons]
      split
      next hkind =>
        split
        next hauth => simp [hauth, Except.isOk, Except.toBool]
        next hauth =>
          rw [hkind, decide_eq_true (not_not.mp hauth)]
          split
          next e he => rw [he]; rfl
          next id he =>
            have hok : (mutationId item.entry).isOk = true := by rw [he]; rfl
            rw [hok]
            rfl
      next hkind => simp [hkind, Except.isOk, Except.toBool]

/-- **A page is a fold.**  `addEntries` folds the items it gets to, one by one. -/
theorem addEntries_eq_foldl (place : Place) (items : List Item) (log : ChannelLog) :
    (addEntries place log items).1 = (reached place items).foldl (fold1 place) log := by
  induction items generalizing log with
  | nil => rfl
  | cons item items ih =>
    have hthrows := throws_eq place log item
    rw [addEntries, reached, List.foldl_cons, fold1]
    rcases hstep : addEntry place log item with ⟨log', e | added⟩
    · rw [hstep] at hthrows
      rw [hthrows]
      rfl
    · rw [hstep] at hthrows
      rw [hthrows]
      exact ih log'

/-- The items a run of arrivals gets to, in order. -/
def folded (place : Place) (arrivals : List Arrival) : List Item :=
  arrivals.flatMap fun a => reached place a.items

theorem apply_eq_foldl (place : Place) (log : ChannelLog) (a : Arrival) :
    a.apply place log = (reached place a.items).foldl (fold1 place) log := by
  cases a with
  | addEntries page | addLocalEntry entry => exact addEntries_eq_foldl place _ log

/-- **A run is a fold.** -/
theorem runArrivals_eq_foldl (place : Place) (arrivals : List Arrival) :
    runArrivals place arrivals = (folded place arrivals).foldl (fold1 place) createChannelLog := by
  have key : ∀ log, arrivals.foldl (Arrival.apply place) log =
      (folded place arrivals).foldl (fold1 place) log := by
    induction arrivals with
    | nil => exact fun _ => rfl
    | cons a arrivals ih =>
      intro log
      rw [List.foldl_cons, ih, apply_eq_foldl, folded, folded, List.flatMap_cons,
        List.foldl_append]
  exact key _

theorem reached_subset (place : Place) (items : List Item) : reached place items ⊆ items := by
  induction items with
  | nil => exact fun _ h => h
  | cons item items ih =>
    rw [reached]
    refine List.cons_subset_cons _ ?_
    split
    · exact List.nil_subset _
    · exact ih

/-- Items that can all be read are all reached. -/
theorem reached_eq_self {items : List Item}
    (h : ∀ item ∈ items, throws place item = false) : reached place items = items := by
  induction items with
  | nil => rfl
  | cons item items ih =>
    rw [reached, h item (List.mem_cons_self ..), if_neg Bool.false_ne_true,
      ih fun x hx => h x (List.mem_cons_of_mem _ hx)]

/-- Every echo is in the name of the device's own or a live, authenticated author. -/
theorem signed_of_isLocal {arrivals : List Arrival}
    (h : item ∈ folded place arrivals) (hlocal : item.isLocal = true) : item.auth = .signed := by
  obtain ⟨a, -, hitem⟩ := List.mem_flatMap.mp h
  have hmem := reached_subset place _ hitem
  cases a with
  | addEntries page =>
    obtain ⟨e, -, rfl⟩ := List.mem_map.mp hmem
    cases hlocal
  | addLocalEntry entry =>
    obtain rfl := List.mem_singleton.mp hmem
    rfl

/-! ### When a signed line stands -/

/-- The content entries a run added, as the messages they describe, in order. -/
def added (place : Place) (arrivals : List Arrival) : List Message :=
  (folded place arrivals).filterMap (contentOf place)

theorem runArrivals_get? (place : Place) (arrivals : List Arrival) (sender : Str) (ts : Number) :
    (runArrivals place arrivals).base.get? (messageId sender ts) =
      pick ((added place arrivals).filter fun m => m.sender = sender ∧ m.ts = ts) := by
  rw [runArrivals_eq_foldl, foldl_fold1_get?]
  have hcopies : copies place (messageId sender ts) (folded place arrivals) =
      (added place arrivals).filter fun m => m.sender = sender ∧ m.ts = ts := by
    rw [copies, added]
    congr 1
    funext m
    rw [Message.id, decide_eq_decide]
    exact messageId_eq_iff
  rw [hcopies]
  exact foldl_keep_none _

/-- The first copy of a line that came from a page. -/
def firstRelayCopy (place : Place) (arrivals : List Arrival) (sender : Str) (ts : Number) :
    Option Message :=
  (added place arrivals).find? fun m => m.sender = sender ∧ m.ts = ts ∧ m.isLocal = false

theorem auth_of_isLocal {arrivals : List Arrival} {m : Message}
    (h : m ∈ added place arrivals) (hlocal : m.isLocal = true) : m.auth = some .signed := by
  obtain ⟨item, hitem, hm⟩ := List.mem_filterMap.mp h
  obtain ⟨sender, ts, reply, body, -, -, rfl⟩ := contentOf_some hm
  exact congrArg some (signed_of_isLocal hitem hlocal)

/-- The line that stands is the first copy from a page, or else an echo. -/
theorem runArrivals_get?_cases (place : Place) (arrivals : List Arrival) (sender : Str)
    (ts : Number) (hadded : ∃ m ∈ added place arrivals, m.sender = sender ∧ m.ts = ts) :
    ∃ m ∈ added place arrivals, m.sender = sender ∧ m.ts = ts ∧
      (runArrivals place arrivals).base.get? (messageId sender ts) = some m ∧
      ((m.isLocal = false ∧ firstRelayCopy place arrivals sender ts = some m) ∨
        (m.isLocal = true ∧ firstRelayCopy place arrivals sender ts = none)) := by
  have hfirst : firstRelayCopy place arrivals sender ts =
      ((added place arrivals).filter fun m => m.sender = sender ∧ m.ts = ts).find?
        fun m => !m.isLocal := by
    rw [firstRelayCopy, List.find?_filter]
    congr 1
    funext m
    cases m.isLocal <;> simp
  rw [hfirst, runArrivals_get?]
  generalize hl : (added place arrivals).filter (fun m => m.sender = sender ∧ m.ts = ts) = l
  have hmem : ∀ m ∈ l, m ∈ added place arrivals ∧ m.sender = sender ∧ m.ts = ts := by
    intro m hm
    rw [← hl, List.mem_filter, decide_eq_true_eq] at hm
    exact hm
  cases hf : l.find? (fun m => !m.isLocal) with
  | some m =>
    obtain ⟨h1, h2, h3⟩ := hmem m (List.mem_of_find?_eq_some hf)
    refine ⟨m, h1, h2, h3, by rw [pick, hf]; rfl, .inl ⟨?_, rfl⟩⟩
    simpa using List.find?_some hf
  | none =>
    obtain ⟨m₀, hm₀, hid⟩ := hadded
    have hne : m₀ ∈ l := by rw [← hl]; exact List.mem_filter.mpr ⟨hm₀, decide_eq_true hid⟩
    obtain ⟨m, l', rfl⟩ := List.exists_cons_of_ne_nil (List.ne_nil_of_mem hne)
    obtain ⟨h1, h2, h3⟩ := hmem m (List.mem_cons_self ..)
    refine ⟨m, h1, h2, h3, by rw [pick, hf]; rfl, .inr ⟨?_, rfl⟩⟩
    simpa using List.find?_eq_none.mp hf m (List.mem_cons_self ..)

/-- **When a signed line stands.**  Once a signed entry has been added under an identity, the line
stored there is signed and says what one of its signed entries says exactly when the first copy
that came from a page, if any did, is signed. -/
theorem signed_line_stands_iff (place : Place) (arrivals : List Arrival) (sender : Str) (ts : Number)
    (hsigned : ∃ m ∈ added place arrivals,
      m.sender = sender ∧ m.ts = ts ∧ m.auth = some .signed) :
    (∃ m, (runArrivals place arrivals).base.get? (messageId sender ts) = some m ∧
        m.auth = some .signed ∧
        ∃ m' ∈ added place arrivals, m'.sender = sender ∧ m'.ts = ts ∧
          m'.auth = some .signed ∧ m'.body = m.body) ↔
      ∀ m, firstRelayCopy place arrivals sender ts = some m → m.auth = some .signed := by
  obtain ⟨m₀, hm₀, hs₀, ht₀, -⟩ := hsigned
  obtain ⟨w, hw, hs, ht, hget, hcase⟩ :=
    runArrivals_get?_cases place arrivals sender ts ⟨m₀, hm₀, hs₀, ht₀⟩
  -- The winner is itself one of the copies, so only its verdict is in question.
  constructor
  · rintro ⟨m, hm, hauth, -⟩ m' hm'
    obtain rfl := Option.some.inj (hget.symm.trans hm)
    rcases hcase with ⟨-, hrelay⟩ | ⟨-, hnone⟩
    · obtain rfl := Option.some.inj (hrelay.symm.trans hm')
      exact hauth
    · rw [hnone] at hm'
      cases hm'
  · intro hfirst
    have hauth : w.auth = some .signed := by
      rcases hcase with ⟨-, hrelay⟩ | ⟨hlocal, -⟩
      · exact hfirst w hrelay
      · exact auth_of_isLocal hw hlocal
    exact ⟨w, hget, hauth, w, hw, hs, ht, hauth, rfl⟩

/-- A chat entry: author, timestamp, text. -/
def chatEntry (sender : Str) (ts : Number) (text : Str) : Value :=
  .obj 0 [(lit "k", .str (lit "chat")), (lit "text", .str text), (lit "ts", .num ts),
    (lit "sender", .str sender)]

/-- A page with an unsigned line in a member's name, and a later page with the member's own. -/
def impostorFirst : List Arrival :=
  [.addEntries [⟨some 2, chatEntry (lit "alice") (.ofRat 5) (lit "no"), .unsigned⟩],
    .addEntries [⟨some 1, chatEntry (lit "alice") (.ofRat 5) (lit "yes"), .signed⟩]]

/-- An unsigned copy from an earlier page hides the signed line. -/
theorem unsigned_copy_hides_signed_line :
    (∃ m ∈ added ⟨[], []⟩ impostorFirst,
      m.sender = lit "alice" ∧ m.ts = .ofRat 5 ∧ m.auth = some .signed) ∧
    ((runArrivals ⟨[], []⟩ impostorFirst).base.get? (messageId (lit "alice") (.ofRat 5))).map
      (fun m => m.auth) = some (some .unsigned) := by
  decide +kernel

/-- The author's own device shows its line from the echo on, and after the page too. -/
theorem signed_line_stands_on_writer :
    ∃ m, (runArrivals ⟨[], []⟩
        [.addLocalEntry (chatEntry (lit "alice") (.ofRat 5) (lit "yes")),
          .addEntries [⟨some 1, chatEntry (lit "alice") (.ofRat 5) (lit "yes"), .signed⟩]]).base.get?
        (messageId (lit "alice") (.ofRat 5)) = some m ∧ m.auth = some .signed := by
  obtain ⟨m, hm, hauth, -⟩ := (signed_line_stands_iff ⟨[], []⟩
    [.addLocalEntry (chatEntry (lit "alice") (.ofRat 5) (lit "yes")),
      .addEntries [⟨some 1, chatEntry (lit "alice") (.ofRat 5) (lit "yes"), .signed⟩]]
    (lit "alice") (.ofRat 5) (by decide +kernel)).mpr (by decide +kernel)
  exact ⟨m, hm, hauth⟩

end Quorum
