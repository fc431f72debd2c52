import Quorum.History
import Quorum.Log.Held
import Quorum.Log.Pages
import Quorum.Order.Paging

/-!
# What a step of a room can do

Asking for pages changes nothing but what is asked for (`Asks`), folding one in changes the working
copy (`asks_foldPage`, `asks_foldDrained`), and the relay's store changes by an append or by
dropping entries (`change_step`).  From these it follows for every run, whatever becomes of the
channel's settings, that the relay issues a number once and keeps each log sorted, that an entry
which is gone does not come back, and that the number of a line is that of an entry it was read
from.
-/

namespace Quorum.History

open Js

variable {place : Place} {me : Str} {r : Room}

/-! ### Where numbers come from -/

/-- An entry as a page hands it to the fold. -/
def Stored.item (s : Stored) (auth : Verdict) : Item := { seq := some s.seq, entry := s.entry, auth }

/-- An entry of a log is the one that a line was read from. -/
def Stored.Wrote (place : Place) (s : Stored) (line : Message) : Prop :=
  ∃ auth m, contentOf place (s.item auth) = some m ∧ m.sender = line.sender ∧ m.ts = line.ts

/-- A line has no number, or that of an entry it was read from. -/
def Numbers (place : Place) (folded : List Stored) (line : Message) : Prop :=
  ∀ n, line.seq = some n → ∃ s ∈ folded, s.seq = n ∧ s.Wrote place line

/-- Every number in the working copy is that of an entry folded into it. -/
structure Numbered (place : Place) (folded : List Stored) (log : ChannelLog) : Prop where
  newest : log.newest = 0 ∨ ∃ s ∈ folded, s.seq = log.newest
  oldest : ∀ n, log.oldest = some n → ∃ s ∈ folded, s.seq = n
  line : ∀ id m, log.base.get? id = some m → Numbers place folded m

variable {folded folded' : List Stored} {log : ChannelLog}

theorem Numbers.mono {line : Message} (h : Numbers place folded line) (hsub : folded ⊆ folded') :
    Numbers place folded' line := fun n hn =>
  let ⟨s, hs, hw⟩ := h n hn
  ⟨s, hsub hs, hw⟩

namespace Numbered

theorem empty : Numbered place folded createChannelLog := by
  refine ⟨.inl rfl, fun n hn => ?_, fun id m hm => ?_⟩
  · cases (show (none : Option ℕ) = some n from hn)
  · cases (show (none : Option Message) = some m from hm)

theorem complete (h : Numbered place folded log) :
    Numbered place folded { log with complete := true } :=
  ⟨h.newest, h.oldest, h.line⟩

theorem mono (h : Numbered place folded log) (hsub : folded ⊆ folded') :
    Numbered place folded' log := by
  refine ⟨h.newest.imp_right fun ⟨s, hs, hn⟩ => ⟨s, hsub hs, hn⟩, fun n hn => ?_,
    fun id m hm => (h.line id m hm).mono hsub⟩
  obtain ⟨s, hs, hseq⟩ := h.oldest n hn
  exact ⟨s, hsub hs, hseq⟩

/-- An item has no number, or is an entry that is folded in. -/
def Known (folded : List Stored) (item : Item) : Prop :=
  item.seq = none ∨ ∃ s ∈ folded, item = s.item item.auth

theorem noteSeq (h : Numbered place folded log) {item : Item} (hk : Known folded item) :
    ((log.noteSeq item.seq).newest = 0 ∨
        ∃ s ∈ folded, s.seq = (log.noteSeq item.seq).newest) ∧
      ∀ n, (log.noteSeq item.seq).oldest = some n → ∃ s ∈ folded, s.seq = n := by
  rcases hk with hnone | ⟨s, hs, hitem⟩
  · rw [hnone]
    exact ⟨h.newest, h.oldest⟩
  · rw [hitem]
    refine ⟨?_, fun n hn => ?_⟩
    · change max log.newest s.seq = 0 ∨ ∃ s' ∈ folded, s'.seq = max log.newest s.seq
      rcases max_choice log.newest s.seq with hm | hm <;> rw [hm]
      · exact h.newest
      · exact .inr ⟨s, hs, rfl⟩
    · rw [Stored.item, ChannelLog.noteSeq] at hn
      cases ho : log.oldest with
      | none =>
        rw [ho] at hn
        exact ⟨s, hs, Option.some.inj hn⟩
      | some o =>
        rw [ho] at hn
        obtain rfl : min o s.seq = n := Option.some.inj hn
        rcases min_choice o s.seq with hm | hm <;> rw [hm]
        · exact h.oldest o ho
        · exact ⟨s, hs, rfl⟩

/-- The line that an item stores. -/
theorem numbers_content {item : Item} {m : Message} (hk : Known folded item)
    (hm : contentOf place item = some m) : Numbers place folded m := by
  obtain ⟨sender, ts, reply, body, -, -, rfl⟩ := contentOf_some hm
  intro n hn
  rcases hk with hnone | ⟨s, hs, hitem⟩
  · rw [show item.seq = some n from hn] at hnone
    cases hnone
  · rw [hitem] at hn
    refine ⟨s, hs, Option.some.inj hn, item.auth, _, hitem ▸ hm, rfl, rfl⟩

theorem fold1 (h : Numbered place folded log) {item : Item} (hk : Known folded item) :
    Numbered place folded (fold1 place log item) := by
  have hcursors := h.noteSeq hk
  have hline : ∀ id m, (Quorum.fold1 place log item).base.get? id = some m →
      Numbers place folded m := by
    intro id m hm
    rw [fold1_get?] at hm
    cases hc : contentOf place item with
    | none => exact h.line id m (by simpa [copies, hc] using hm)
    | some m' =>
      by_cases hid : m'.id = id
      · have hkeep : keep (log.base.get? id) m' = some m := by simpa [copies, hc, hid] using hm
        rcases keep_eq hkeep with hprior | rfl
        · exact h.line id m hprior
        · exact numbers_content hk hc
      · exact h.line id m (by simpa [copies, hc, hid] using hm)
  obtain ⟨hn, ho⟩ := cursors_fold1 place log item
  cases hc : item.considered with
  | false =>
    rw [Item.noted, hc] at hn ho
    exact ⟨by rw [hn]; exact h.newest, by rw [ho]; exact h.oldest, hline⟩
  | true =>
    rw [Item.noted, hc] at hn ho
    exact ⟨by rw [hn]; exact hcursors.1, by rw [ho]; exact hcursors.2, hline⟩

/-- Entries that are folded in, and lines without a number, leave it at that. -/
theorem addEntries (h : Numbered place folded log) {items : List Item}
    (hk : ∀ item ∈ items, Known folded item) :
    Numbered place folded (addEntries place log items).1 := by
  rw [addEntries_eq_foldl]
  exact List.foldlRecOn (reached place items) _ h fun _ hlog item hitem =>
    hlog.fold1 (hk item (reached_subset place items hitem))

theorem addLocalEntry (h : Numbered place folded log) (entry : Value) :
    Numbered place folded (addLocalEntry place log entry).1 :=
  h.addEntries fun _ hitem => .inl (by rw [List.mem_singleton.mp hitem])

theorem addSystemMessage (h : Numbered place folded log) (text : Str) (ts : Number) :
    Numbered place folded (addSystemMessage place log text ts) := by
  refine ⟨h.newest, h.oldest, fun id m hm => ?_⟩
  rcases Dict.get?_set_cases hm with ⟨-, rfl⟩ | ⟨-, hm⟩
  · exact fun n hn => by cases hn
  · exact h.line id m hm

theorem pruneLog (h : Numbered place folded log) (beforeTs : Number) :
    Numbered place folded (pruneLog log beforeTs).1 :=
  ⟨h.newest, h.oldest, fun id m hm => h.line id m (Dict.get?_of_filter hm)⟩

/-- What is rendered has the numbers of the working copy. -/
theorem rendered (h : Numbered place folded log) {lines : List Message}
    (hl : renderLog log = .ok lines) {line : Message} (hm : line ∈ lines) :
    Numbers place folded line := by
  obtain ⟨shown, hs, -⟩ := renderLog_eq_ok.mp hl
  obtain ⟨id, hid⟩ := (mem_renderLog hl hs).mp hm
  obtain ⟨m, hbase, hline⟩ := replay_line_inv hs hid
  obtain ⟨hseq, hsender, hts⟩ := same_replayLine hline
  intro n hn
  obtain ⟨s, hs, hsn, auth, m', hm', hsender', hts'⟩ := h.line id m hbase n (hseq ▸ hn)
  exact ⟨s, hs, hsn, auth, m', hm', hsender'.trans hsender.symm, hts'.trans hts.symm⟩

end Numbered

/-! ### Numbers at the relay -/

/-- A log issues every number once. -/
structure Store.Valid (store : Store) : Prop where
  entries : ∀ s ∈ store.entries, s ∈ store.issued
  bound : ∀ s ∈ store.issued, s.seq ≤ store.lastSeq s.hid
  unique : ∀ s ∈ store.issued, ∀ s' ∈ store.issued, s.hid = s'.hid → s.seq = s'.seq → s = s'

namespace Store.Valid

variable {store : Store}

theorem append (h : store.Valid) (hid author : Str) (entry : Value) :
    (store.append hid author entry).Valid := by
  set stored : Stored := { hid, seq := store.lastSeq hid + 1, author, entry } with hstored
  have hmem : ∀ s, s ∈ (store.append hid author entry).issued ↔ s ∈ store.issued ∨ s = stored := by
    simp [Store.append, hstored]
  have hlast : ∀ c, store.lastSeq c ≤ (store.append hid author entry).lastSeq c := by
    intro c
    rw [Store.lastSeq, Store.lastSeq, Store.append, List.countP_append]
    exact Nat.le_add_right _ _
  have hnew : stored.seq ≤ (store.append hid author entry).lastSeq hid := by
    rw [Store.lastSeq, Store.append, List.countP_append]
    simp [hstored, Store.lastSeq]
  -- the new number is above all those of its log
  have hfresh : ∀ s ∈ store.issued, s.hid = hid → s.seq ≠ stored.seq := by
    intro s hs hh heq
    have hle := h.bound s hs
    rw [hh, heq] at hle
    exact absurd hle (Nat.not_succ_le_self _)
  refine ⟨fun s hs => (hmem s).mpr ?_, fun s hs => ?_, fun s hs s' hs' hh hseq => ?_⟩
  · exact (List.mem_append.mp hs).imp (h.entries s) List.mem_singleton.mp
  · rcases (hmem s).mp hs with hs | rfl
    · exact (h.bound s hs).trans (hlast s.hid)
    · exact hnew
  · rcases (hmem s).mp hs with hs | rfl <;> rcases (hmem s').mp hs' with hs' | rfl
    · exact h.unique s hs s' hs' hh hseq
    · exact absurd hseq (hfresh s hs hh)
    · exact absurd hseq.symm (hfresh s' hs' hh.symm)
    · rfl

theorem filter (h : store.Valid) (p : Stored → Bool) :
    Store.Valid { store with entries := store.entries.filter p } :=
  ⟨fun s hs => h.entries s (List.mem_of_mem_filter hs), h.bound, h.unique⟩

/-- A page is of the log that was asked for. -/
theorem page (h : store.Valid) {hid : Str} {limit : ℕ} {bound : Bound} {s : Stored}
    (hs : s ∈ (store.page hid limit bound).1) : s ∈ store.issued ∧ s.hid = hid := by
  cases bound with
  | after n =>
    have hs := List.mem_filter.mp (List.mem_of_mem_take hs)
    exact ⟨h.entries s hs.1, (of_decide_eq_true hs.2).1⟩
  | before n =>
    have hs := List.mem_filter.mp (List.mem_of_mem_drop hs)
    exact ⟨h.entries s hs.1, (of_decide_eq_true hs.2).1⟩

end Store.Valid

/-! ### Asking -/

/-- Pages are asked for, and that is all. -/
structure Room.Asks (r r' : Room) : Prop where
  store : r'.store = r.store
  entry : r'.entry = r.entry
  log : r'.log = r.log
  appending : r'.appending = r.appending
  shown : r'.shown = r.shown
  deleting : r'.deleting = r.deleting
  redacting : r'.redacting = r.redacting
  folded : r'.folded = r.folded

namespace Room

theorem Asks.refl (r : Room) : r.Asks r := ⟨rfl, rfl, rfl, rfl, rfl, rfl, rfl, rfl⟩

theorem asks_nextLog (r : Room) (alts : List Value) : r.Asks (r.nextLog alts) := by
  unfold nextLog
  split
  · exact ⟨rfl, rfl, rfl, rfl, rfl, rfl, rfl, rfl⟩
  · exact .refl r

theorem asks_drainAlternateLogs (r : Room) : r.Asks r.drainAlternateLogs := by
  unfold drainAlternateLogs
  split
  · exact asks_nextLog r _
  · exact .refl r

theorem asks_fetchPage (r : Room) (bound : Bound) (first : Bool) :
    r.Asks (r.fetchPage bound first) := by
  have hdrain : r.Asks (if first then r.drainAlternateLogs else r) := by
    split
    · exact asks_drainAlternateLogs r
    · exact .refl r
  unfold fetchPage
  split
  · split
    · exact ⟨rfl, rfl, rfl, rfl, rfl, rfl, rfl, rfl⟩
    · exact hdrain
  · exact hdrain

theorem asks_loadMessages (r : Room) : r.Asks r.loadMessages := by
  unfold loadMessages
  split
  · exact .refl r
  · obtain ⟨h₁, h₂, h₃, h₄, h₅, h₆, h₇, h₈⟩ :=
      asks_fetchPage { r with loaded := true } (.before MAX_SAFE_INTEGER) true
    exact ⟨h₁, h₂, h₃, h₄, h₅, h₆, h₇, h₈⟩

theorem asks_loadOlderMessages (r : Room) : r.Asks r.loadOlderMessages := by
  unfold loadOlderMessages
  split
  · exact .refl r
  · exact asks_fetchPage r _ false

theorem asks_catchUp (r : Room) : r.Asks r.catchUp := by
  unfold catchUp
  split
  · exact asks_fetchPage r _ false
  · exact .refl r

/-! ### Folding pages in -/

/-- The working copy with a page folded in, but for the mark that its start was reached. -/
def withPage (place : Place) (r : Room) (page : List Stored) (opened : Stored → Option Verdict) :
    ChannelLog :=
  (addEntries place r.log (openPage page opened true)).1

/-- A page is folded in, the start of the log may be noted, and other logs may be asked for. -/
theorem asks_foldPage (place : Place) (r : Room) (f : Fetch) (page : List Stored × Bool)
    (opened : Stored → Option Verdict) :
    ∃ complete, Asks
      { r with
        log := { r.withPage place page.1 opened with complete }
        folded := r.folded ++ page.1 }
      (r.foldPage place f page opened) := by
  unfold foldPage
  dsimp only
  split
  · exact ⟨_, .refl _⟩
  · exact ⟨_, .refl _⟩
  · split <;> split
    · exact ⟨true, asks_drainAlternateLogs _⟩
    · exact ⟨_, asks_drainAlternateLogs _⟩
    · exact ⟨true, .refl _⟩
    · exact ⟨_, .refl _⟩

/-- A page of another log is folded in without its numbers, unless it is empty. -/
theorem asks_foldDrained (place : Place) (r : Room) (d : Drain) (page : List Stored)
    (opened : Stored → Option Verdict) :
    Asks { r with log := (addEntries place r.log (openPage page opened false)).1 }
      (r.foldDrained place d page opened) := by
  unfold foldDrained
  split
  · next hlast =>
    obtain rfl := List.getLast?_eq_none_iff.mp hlast
    exact asks_nextLog r d.alts
  · dsimp only
    split
    · exact .refl _
    · split
      · exact ⟨rfl, rfl, rfl, rfl, rfl, rfl, rfl, rfl⟩
      · exact asks_nextLog _ _

/-- A page that is asked for, served and folded in with nothing in between. -/
theorem fetchPage_served (place : Place) (me : Str) {hid : Str} (hlog : logId r.entry = some hid)
    (hkey : (r.entry.get (lit "hkey")).truthy = true) (bound : Bound) (first : Bool)
    (opened : Stored → Option Verdict) :
    (r.fetchPage bound first).run place me
        [.serve r.fetching.length, .fold r.fetching.length opened] =
      foldPage place { r with requests := r.requests ++ [.page hid bound] }
        { hid, bound, first, reply := some (r.store.page hid HISTORY_PAGE bound) }
        (r.store.page hid HISTORY_PAGE bound) opened := by
  have hask : r.fetchPage bound first =
      { r with
        fetching := r.fetching ++ [{ hid, bound, first, reply := none }]
        requests := r.requests ++ [.page hid bound] } := by
    dsimp only [fetchPage]
    rw [hlog]
    dsimp only
    rw [if_pos hkey]
  rw [hask]
  dsimp only [run, List.foldl_cons, List.foldl_nil, step]
  rw [List.getElem?_concat_length]
  simp only [List.set_append_right _ _ le_rfl, Nat.sub_self, List.set_cons_zero,
    List.getElem?_concat_length, List.eraseIdx_append_of_length_le le_rfl, List.eraseIdx_cons_zero,
    List.append_nil]

end Room

variable {page : List Stored} {opened : Stored → Option Verdict}

theorem mem_openPage {item : Item} :
    item ∈ Room.openPage page opened true ↔
      ∃ s ∈ page, ∃ auth, opened s = some auth ∧ s.item auth = item := by
  simp [Room.openPage, Stored.item]

theorem mem_openPage_drained {item : Item} :
    item ∈ Room.openPage page opened false ↔
      ∃ s ∈ page, ∃ auth, opened s = some auth ∧ { s.item auth with seq := none } = item := by
  simp [Room.openPage, Stored.item]

/-- Everything that opens of an entry is in the working copy. -/
def Kept (place : Place) (opened : Stored → Option Verdict) (log : ChannelLog) (s : Stored) : Prop :=
  ∀ auth, opened s = some auth → log.Has place (s.item auth)

/-- A page is held from then on, whether its numbers come with it or not. -/
theorem holds_openPage {log : ChannelLog} {numbered : Bool}
    (hok : (addEntries place log (Room.openPage page opened numbered)).2.isOk = true) (i : Identity) :
    (addEntries place log (Room.openPage page opened numbered)).1.holds i = true ↔
      log.holds i = true ∨
        ∃ s ∈ page, ∃ auth, opened s = some auth ∧ identityOf place (s.item auth) = some i := by
  have hlocal : ∀ item ∈ Room.openPage page opened numbered, item.isLocal = false := by
    intro item hitem
    obtain ⟨s, -, hitem⟩ := List.mem_filterMap.mp hitem
    obtain ⟨auth, -, rfl⟩ := Option.map_eq_some_iff.mp hitem
    rfl
  rw [holds_addEntries hok hlocal]
  refine or_congr_right ?_
  cases numbered with
  | true =>
    constructor
    · rintro ⟨item, hitem, hi⟩
      obtain ⟨s, hs, auth, hauth, rfl⟩ := mem_openPage.mp hitem
      exact ⟨s, hs, auth, hauth, hi⟩
    · rintro ⟨s, hs, auth, hauth, hi⟩
      exact ⟨_, mem_openPage.mpr ⟨s, hs, auth, hauth, rfl⟩, hi⟩
  | false =>
    constructor
    · rintro ⟨item, hitem, hi⟩
      obtain ⟨s, hs, auth, hauth, rfl⟩ := mem_openPage_drained.mp hitem
      exact ⟨s, hs, auth, hauth, identityOf_seq place (s.item auth) none ▸ hi⟩
    · rintro ⟨s, hs, auth, hauth, hi⟩
      exact ⟨_, mem_openPage_drained.mpr ⟨s, hs, auth, hauth, rfl⟩,
        (identityOf_seq place (s.item auth) none).trans hi⟩

/-! ### The relay's store -/

/-- Nothing changes, an entry is appended, or entries are dropped. -/
inductive Store.Change (store : Store) : Store → Prop
  | same : Change store store
  | append (hid author : Str) (entry : Value) : Change store (store.append hid author entry)
  | drop (p : Stored → Bool) : Change store { store with entries := store.entries.filter p }

theorem Store.Change.of_eq {store store' : Store} (h : store' = store) : store.Change store' :=
  h ▸ .same

/-- **What a step does to the store.** -/
theorem Room.change_step (r : Room) (a : Action) : r.store.Change (r.step place me a).store := by
  cases a with
  | append hid author entry => exact .append hid author entry
  | expire hid seq => exact .drop _
  | load => exact .of_eq r.asks_loadMessages.store
  | older => exact .of_eq r.asks_loadOlderMessages.store
  | catchUp => exact .of_eq r.asks_catchUp.store
  | serve i | serveDrain i | render =>
    dsimp only [step]
    split <;> exact .same
  | fold i opened =>
    dsimp only [step]
    split
    · next f hf =>
      split
      · next page hp =>
        obtain ⟨complete, hask⟩ :=
          asks_foldPage place { r with fetching := r.fetching.eraseIdx i } f page opened
        exact .of_eq hask.store
      · exact .same
    · exact .same
  | fail i =>
    dsimp only [step]
    split
    · split
      · exact .of_eq (asks_drainAlternateLogs _).store
      · exact .same
    · exact .same
  | foldDrain i opened =>
    dsimp only [step]
    split
    · next d hd =>
      split
      · exact .of_eq (asks_foldDrained place _ d _ opened).store
      · exact .same
    · exact .same
  | failDrain i =>
    dsimp only [step]
    split
    · exact .of_eq (asks_nextLog _ _).store
    · exact .same
  | accept i =>
    dsimp only [step]
    split
    · exact .append _ _ _
    · exact .same
  | delete i at_ hid hkey =>
    dsimp only [step]
    split
    · unfold deleteMessage
      split <;> exact .same
    · exact .same
  | redact i =>
    dsimp only [step]
    split
    · unfold redactLine
      split <;> exact .same
    · exact .same
  | erase i admin =>
    dsimp only [step]
    split
    · exact .drop _
    · exact .same
  | _ => exact .same

namespace Store

variable {store store' : Store} {s : Stored}

theorem Valid.change (h : store.Valid) (hc : store.Change store') : store'.Valid := by
  cases hc with
  | same => exact h
  | append hid author entry => exact h.append hid author entry
  | drop p => exact h.filter p

theorem Change.issued (hc : store.Change store') (hs : s ∈ store.issued) : s ∈ store'.issued := by
  cases hc with
  | same => exact hs
  | append hid author entry => exact List.mem_append_left _ hs
  | drop p => exact hs

/-- What is appended has a number that was not issued before. -/
theorem Valid.absent_change (h : store.Valid) (hs : s ∈ store.issued) (hgone : s ∉ store.entries)
    (hc : store.Change store') : s ∉ store'.entries := by
  cases hc with
  | same => exact hgone
  | append hid author entry =>
    intro hmem
    rcases List.mem_append.mp hmem with hmem | hmem
    · exact hgone hmem
    -- The new entry is above all numbers of its log.
    · have hbound := h.bound s hs
      rw [List.mem_singleton.mp hmem] at hbound
      exact absurd hbound (Nat.not_succ_le_self _)
  | drop p => exact fun hmem => hgone (List.mem_of_mem_filter hmem)

end Store

namespace Room

variable (place me)

theorem valid_run (h : r.store.Valid) (l : List Action) : (r.run place me l).store.Valid :=
  foldl_preserves (P := fun r : Room => r.store.Valid)
    (fun r a hr => hr.change (r.change_step a)) l h

theorem valid_start (entry : Value) : (start entry).store.Valid :=
  ⟨fun _ hs => absurd hs List.not_mem_nil, fun _ hs => absurd hs List.not_mem_nil,
    fun _ hs => absurd hs List.not_mem_nil⟩

/-- **An entry that is gone does not come back.** -/
theorem absent_run (h : r.store.Valid) {s : Stored} (hs : s ∈ r.store.issued)
    (hgone : s ∉ r.store.entries) (l : List Action) : s ∉ (r.run place me l).store.entries :=
  (foldl_preserves
    (P := fun r : Room => r.store.Valid ∧ s ∈ r.store.issued ∧ s ∉ r.store.entries)
    (fun r a ⟨hv, hi, hg⟩ =>
      have hc := r.change_step a
      ⟨hv.change hc, hc.issued hi, hv.absent_change hi hg hc⟩) l ⟨h, hs, hgone⟩).2.2

end Room

/-! ### Logs are sorted -/

/-- What the relay holds of a log. -/
def Store.logOf (store : Store) (hid : Str) : List Stored := store.entries.filter (·.hid = hid)

/-- Every log is numbered upwards from one. -/
structure Store.Sorted (store : Store) : Prop where
  valid : store.Valid
  pos : ∀ s ∈ store.entries, 0 < s.seq
  sorted : store.entries.Pairwise fun s s' => s.hid = s'.hid → s.seq < s'.seq

namespace Store

variable {store store' : Store}

theorem Sorted.change (h : store.Sorted) (hc : store.Change store') : store'.Sorted := by
  refine ⟨h.valid.change hc, ?_, ?_⟩
  · cases hc with
    | same => exact h.pos
    | append hid author entry =>
      exact List.forall_mem_append.mpr ⟨h.pos, List.forall_mem_singleton.mpr (Nat.succ_pos _)⟩
    | drop p => exact fun s hs => h.pos s (List.mem_of_mem_filter hs)
  · cases hc with
    | same => exact h.sorted
    | append hid author entry =>
      refine List.pairwise_append.mpr ⟨h.sorted, List.pairwise_singleton _ _, fun s hs s' hs' => ?_⟩
      obtain rfl := List.mem_singleton.mp hs'
      intro hhid
      have hbound := h.valid.bound s (h.valid.entries s hs)
      rw [hhid] at hbound
      exact Nat.lt_succ_of_le hbound
    | drop p => exact h.sorted.filter p

theorem Sorted.logOf (h : store.Sorted) (hid : Str) :
    (store.logOf hid).Pairwise (·.seq < ·.seq) := by
  refine (h.sorted.filter fun s => s.hid = hid).imp_of_mem fun hs hs' hlt => hlt ?_
  have hs := of_decide_eq_true (List.mem_filter.mp hs).2
  have hs' := of_decide_eq_true (List.mem_filter.mp hs').2
  exact hs.trans hs'.symm

theorem page_before (store : Store) (hid : Str) (limit n : ℕ) :
    store.page hid limit (.before n) =
      (Paging.lastPage Stored.seq limit (store.logOf hid) n,
        decide ((Paging.below Stored.seq (store.logOf hid) n).length ≤ limit)) := by
  have hmatching : store.entries.filter (fun s => s.hid = hid ∧ s.seq < n) =
      Paging.below Stored.seq (store.logOf hid) n := by
    rw [Paging.below, Store.logOf, List.filter_filter]
    refine List.filter_congr fun s _ => ?_
    rw [← Bool.decide_and, decide_eq_decide, and_comm]
  rw [page, hmatching]
  rfl

theorem page_after (store : Store) (hid : Str) (limit n : ℕ) :
    (store.page hid limit (.after n)).1 =
      Paging.firstPage Stored.seq limit (store.logOf hid) n := by
  have hmatching : store.entries.filter (fun s => s.hid = hid ∧ n < s.seq) =
      Paging.above Stored.seq (store.logOf hid) n := by
    rw [Paging.above, Store.logOf, List.filter_filter]
    refine List.filter_congr fun s _ => ?_
    rw [← Bool.decide_and, decide_eq_decide, and_comm]
  rw [page, hmatching]
  rfl

end Store

/-- **The relay's logs are sorted in every run.** -/
theorem Room.sorted_run (place : Place) (me : Str) (entry : Value) (l : List Action) :
    ((start entry).run place me l).store.Sorted :=
  foldl_preserves (P := fun r : Room => r.store.Sorted)
    (fun r a hr => hr.change (r.change_step a)) l
    ⟨valid_start entry, fun _ hs => absurd hs List.not_mem_nil, List.Pairwise.nil⟩

/-! ### The numbers of lines -/

/-- The working copy and the lines that were rendered, deleted ones among them, have the numbers of
entries folded in. -/
structure Numbering (place : Place) (r : Room) : Prop where
  numbered : Numbered place r.folded r.log
  shown : ∀ line ∈ r.shown, Numbers place r.folded line
  deleting : ∀ line ∈ r.deleting, Numbers place r.folded line

namespace Numbering

theorem asks {r' : Room} (h : Numbering place r) (ha : r.Asks r') : Numbering place r' := by
  obtain ⟨-, -, hlog, -, hshown, hdeleting, -, hfolded⟩ := ha
  refine ⟨?_, ?_, ?_⟩
  · rw [hfolded, hlog]
    exact h.numbered
  · rw [hshown, hfolded]
    exact h.shown
  · rw [hdeleting, hfolded]
    exact h.deleting

theorem withLog (h : Numbering place r) (hlog : Numbered place r.folded log) :
    Numbering place { r with log } := ⟨hlog, h.shown, h.deleting⟩

theorem foldPage (h : Numbering place r) (f : Fetch) (page : List Stored × Bool)
    (opened : Stored → Option Verdict) : Numbering place (r.foldPage place f page opened) := by
  have hsub : r.folded ⊆ r.folded ++ page.1 := List.subset_append_left _ _
  have hlog : Numbered place (r.folded ++ page.1) (r.withPage place page.1 opened) := by
    refine (h.numbered.mono hsub).addEntries fun item hitem => .inr ?_
    obtain ⟨s, hs, auth, -, rfl⟩ := mem_openPage.mp hitem
    exact ⟨s, List.mem_append_right _ hs, rfl⟩
  obtain ⟨complete, hask⟩ := Room.asks_foldPage place r f page opened
  refine asks ⟨?_, fun line hl => ?_, fun line hl => ?_⟩ hask
  · exact ⟨hlog.newest, hlog.oldest, hlog.line⟩
  · exact (h.shown line hl).mono hsub
  · exact (h.deleting line hl).mono hsub

/-- A page of another log comes without numbers. -/
theorem foldDrained (h : Numbering place r) (d : Drain) (page : List Stored)
    (opened : Stored → Option Verdict) : Numbering place (r.foldDrained place d page opened) := by
  refine asks (h.withLog (h.numbered.addEntries fun item hitem => .inl ?_))
    (Room.asks_foldDrained place r d page opened)
  obtain ⟨s, -, auth, -, rfl⟩ := mem_openPage_drained.mp hitem
  rfl

/-- A page may be of whichever log the channel had: a line keeps the number it was read under. -/
theorem step (h : Numbering place r) (a : Action) : Numbering place (r.step place me a) := by
  have hfetched (i : ℕ) : Numbering place { r with fetching := r.fetching.eraseIdx i } :=
    ⟨h.numbered, h.shown, h.deleting⟩
  have hdrained (i : ℕ) : Numbering place { r with draining := r.draining.eraseIdx i } :=
    ⟨h.numbered, h.shown, h.deleting⟩
  cases a with
  | load => exact h.asks r.asks_loadMessages
  | older => exact h.asks r.asks_loadOlderMessages
  | catchUp => exact h.asks r.asks_catchUp
  | fold i opened =>
    dsimp only [Room.step]
    split
    · next f hf =>
      split
      · next page hp => exact (hfetched i).foldPage f page opened
      · exact h
    · exact h
  | fail i =>
    dsimp only [Room.step]
    split
    · split
      · exact (hfetched i).asks (Room.asks_drainAlternateLogs _)
      · exact hfetched i
    · exact h
  | foldDrain i opened =>
    dsimp only [Room.step]
    split
    · next d hd =>
      split
      · next page hp => exact (hdrained i).foldDrained d page opened
      · exact h
    · exact h
  | failDrain i =>
    dsimp only [Room.step]
    split
    · next d hd => exact (hdrained i).asks (Room.asks_nextLog _ d.alts)
    · exact h
  | send entry hid hkey => exact ⟨h.numbered.addLocalEntry entry, h.shown, h.deleting⟩
  | echo entry => exact h.withLog (h.numbered.addLocalEntry entry)
  | notice text ts => exact h.withLog (h.numbered.addSystemMessage text ts)
  | prune beforeTs => exact h.withLog (h.numbered.pruneLog beforeTs)
  | render =>
    dsimp only [Room.step]
    split
    · next lines hl =>
      exact ⟨h.numbered, List.forall_mem_append.mpr ⟨h.shown, fun _ => h.numbered.rendered hl⟩,
        h.deleting⟩
    · exact h
  | delete i at_ hid hkey =>
    dsimp only [Room.step]
    split
    · next line hl =>
      unfold Room.deleteMessage
      split
      · exact h
      -- The line was shown, so its number is one that was folded in.
      · have hline := h.shown line (List.mem_of_getElem? hl)
        exact ⟨h.numbered.addLocalEntry _, h.shown,
          List.forall_mem_append.mpr ⟨h.deleting, List.forall_mem_singleton.mpr hline⟩⟩
    · exact h
  | redact i =>
    have herased : ∀ line ∈ r.deleting.eraseIdx i, Numbers place r.folded line := fun line hl =>
      h.deleting line (List.mem_of_mem_eraseIdx hl)
    dsimp only [Room.step]
    split
    · unfold Room.redactLine
      split <;> exact ⟨h.numbered, h.shown, herased⟩
    · exact h
  -- The other steps leave the working copy and its lines.
  | serve i | serveDrain i | accept i | erase i admin =>
    dsimp only [Room.step]
    split <;> exact ⟨h.numbered, h.shown, h.deleting⟩
  | _ => exact ⟨h.numbered, h.shown, h.deleting⟩

/-- **A line that is rendered has no number, or that of an entry which was folded in.** -/
theorem run (place : Place) (me : Str) (entry : Value) (l : List Action) :
    Numbering place ((Room.start entry).run place me l) :=
  foldl_preserves (fun _ a hr => hr.step a) l
    ⟨.empty, fun _ hl => absurd hl List.not_mem_nil, fun _ hl => absurd hl List.not_mem_nil⟩

end Numbering

end Quorum.History
