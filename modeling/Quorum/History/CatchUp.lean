import Quorum.History.Issued

/-!
# Catching up

`catchUpLogs` asks every open channel for what followed the highest number it has folded in, and
takes one page of fifty: what came after these is missing until the device catches up again
(`line_after_page_missed`).  `drainAlternateLogs` reads the other logs of a channel page by page,
and stops after twenty of them.

So nothing is left out exactly when what is beyond the fifty entries, or beyond the first thousand
of another log, adds nothing to what was read: it is in the working copy already, or is filed under
the same author and time as an entry that was read (`no_hole_iff`).
-/

namespace Quorum.History

open Js

variable {place : Place} {me : Str} {opened : Stored → Option Verdict} {r : Room} {hid : Str}

/-! ### Entries that add nothing -/

/-- An entry that adds nothing to a working copy into which others are read: it is there already, or
one of the others is filed under the same identity. -/
def AddsNothing (place : Place) (opened : Stored → Option Verdict) (log : ChannelLog)
    (read : List Stored) (s : Stored) : Prop :=
  ∀ auth, opened s = some auth → ∀ i ∈ identityOf place (s.item auth), log.holds i = true ∨
    ∃ s' ∈ read, ∃ auth', opened s' = some auth' ∧ identityOf place (s'.item auth') = some i

theorem addsNothing_of_mem {log : ChannelLog} {read : List Stored} {s : Stored} (hs : s ∈ read) :
    AddsNothing place opened log read s := fun auth hauth _ hi => .inr ⟨s, hs, auth, hauth, hi⟩

theorem kept_iff_addsNothing {log : ChannelLog} {page : List Stored} {numbered : Bool}
    (hok : (addEntries place log (Room.openPage page opened numbered)).2.isOk = true) {s : Stored} :
    Kept place opened (addEntries place log (Room.openPage page opened numbered)).1 s ↔
      AddsNothing place opened log page s :=
  forall₂_congr fun _ _ => forall₂_congr fun i _ => holds_openPage hok i

/-! ### One page of the channel's log -/

section

variable (place me opened)

/-- The turn of the channel in `catchUpLogs(record)`, with nothing in between. -/
def Room.caughtUp (r : Room) : Room :=
  r.run place me [.catchUp, .serve r.fetching.length, .fold r.fetching.length opened]

/-- What the channel's log has after the highest number of the working copy. -/
def Room.newer (r : Room) (hid : Str) : List Stored :=
  Paging.above Stored.seq (r.store.logOf hid) r.log.newest

end

/-- Catching up folds in the first fifty entries. -/
theorem log_caughtUp (hlog : logId r.entry = some hid)
    (hkey : (r.entry.get (lit "hkey")).truthy = true) (hloaded : r.loaded = true) :
    (r.caughtUp place me opened).log =
      (addEntries place r.log (Room.openPage ((r.newer hid).take HISTORY_PAGE) opened true)).1 := by
  have hcatch : r.step place me .catchUp = r.fetchPage (.after r.log.newest) false := by
    dsimp only [Room.step, Room.catchUp]
    rw [if_pos hloaded]
  have hserved := Room.fetchPage_served place me hlog hkey (.after r.log.newest) false opened
  rw [← hcatch] at hserved
  have hrun : r.caughtUp place me opened = _ := hserved
  rw [hrun]
  unfold Room.foldPage
  dsimp only
  rw [Store.page_after]
  cases (addEntries place r.log (Room.openPage
    (Paging.firstPage Stored.seq HISTORY_PAGE (r.store.logOf hid) r.log.newest) opened true)).2 with
  | error e => rfl
  | ok total => rfl

theorem caughtUp_iff (hlog : logId r.entry = some hid)
    (hkey : (r.entry.get (lit "hkey")).truthy = true) (hloaded : r.loaded = true)
    (hok : (addEntries place r.log
      (Room.openPage ((r.newer hid).take HISTORY_PAGE) opened true)).2.isOk = true) :
    (∀ s ∈ r.store.logOf hid, r.log.newest < s.seq →
        Kept place opened (r.caughtUp place me opened).log s) ↔
      ∀ s ∈ (r.newer hid).drop HISTORY_PAGE,
        AddsNothing place opened r.log ((r.newer hid).take HISTORY_PAGE) s := by
  have hnewer : ∀ s, s ∈ r.newer hid ↔ s ∈ r.store.logOf hid ∧ r.log.newest < s.seq := by
    intro s
    simp [Room.newer, Paging.above]
  simp only [log_caughtUp hlog hkey hloaded, kept_iff_addsNothing hok]
  constructor
  · intro h s hs
    obtain ⟨hmem, hlt⟩ := (hnewer s).mp (List.mem_of_mem_drop hs)
    exact h s hmem hlt
  · intro h s hs hlt
    have hmem := (hnewer s).mpr ⟨hs, hlt⟩
    rw [← List.take_append_drop HISTORY_PAGE (r.newer hid)] at hmem
    rcases List.mem_append.mp hmem with hmem | hmem
    · exact addsNothing_of_mem hmem
    · exact h s hmem

/-! ### The other logs of the channel -/

section

variable (place me opened)

/-- How many entries of another log are read: twenty pages. -/
def drainLimit : ℕ := 20 * HISTORY_PAGE

/-- The working copy after entries of another log, none of which throws. -/
def readInto (log : ChannelLog) (page : List Stored) : ChannelLog :=
  (Room.openPage page opened false).foldl (fold1 place) log

/-- No entry of a page ends the fold with an exception. -/
def Clean (page : List Stored) : Prop :=
  ∀ item ∈ Room.openPage page opened false, throws place item = false

/-- One turn of the loop in `drainAlternateLogs`: the relay answers and the page is folded in. -/
def drainRound (i : ℕ) (r : Room) : Room := r.run place me [.serveDrain i, .foldDrain i opened]

/-- `drainAlternateLogs(record, channel)` after a number of turns. -/
def drained (r : Room) (n : ℕ) : Room :=
  (drainRound place me opened r.draining.length)^[n] r.drainAlternateLogs

end

theorem readInto_append (log : ChannelLog) (page page' : List Stored) :
    readInto place opened log (page ++ page') =
      readInto place opened (readInto place opened log page) page' := by
  rw [readInto, Room.openPage, List.filterMap_append, List.foldl_append]
  rfl

namespace Clean

theorem mono {page page' : List Stored} (h : Clean place opened page') (hsub : page ⊆ page') :
    Clean place opened page := by
  intro item hitem
  obtain ⟨s, hs, auth, hauth, rfl⟩ := mem_openPage_drained.mp hitem
  exact h _ (mem_openPage_drained.mpr ⟨s, hsub hs, auth, hauth, rfl⟩)

theorem isOk {page : List Stored} (h : Clean place opened page) (log : ChannelLog) :
    (addEntries place log (Room.openPage page opened false)).2.isOk = true :=
  (isOk_addEntries ..).mpr h

theorem addEntries {page : List Stored} (h : Clean place opened page) (log : ChannelLog) :
    (addEntries place log (Room.openPage page opened false)).1 = readInto place opened log page := by
  rw [addEntries_eq_foldl, reached_eq_self h]
  rfl

end Clean

variable {old : List Drain} {d : Drain} {alts : List Value}

/-- A turn of the loop. -/
theorem drainRound_eq (h : r.draining = old ++ [d]) :
    drainRound place me opened old.length r =
      Room.foldDrained place { r with draining := old }
        { d with
          reply := some (Paging.firstPage Stored.seq HISTORY_PAGE (r.store.logOf d.hid) d.after) }
        (Paging.firstPage Stored.seq HISTORY_PAGE (r.store.logOf d.hid) d.after) opened := by
  dsimp only [drainRound, Room.run, List.foldl_cons, List.foldl_nil, Room.step]
  rw [h, List.getElem?_concat_length]
  simp only [List.set_append_right _ _ le_rfl, Nat.sub_self, List.set_cons_zero,
    List.getElem?_concat_length, List.eraseIdx_append_of_length_le le_rfl, List.eraseIdx_cons_zero,
    List.append_nil, Store.page_after]

/-- Nothing is left to do. -/
theorem drainRound_of_done {i : ℕ} (h : r.draining.length ≤ i) :
    drainRound place me opened i r = r := by
  dsimp only [drainRound, Room.run, List.foldl_cons, List.foldl_nil, Room.step]
  rw [List.getElem?_eq_none h]
  rw [List.getElem?_eq_none h]

/-- A drain that has read so many pages of its log. -/
structure ReadsOn (store : Store) (d : Drain) : Prop where
  after : Paging.above Stored.seq (store.logOf d.hid) d.after =
    (store.logOf d.hid).drop (d.pages * HISTORY_PAGE)
  pages : d.pages < 20

/-- The page that a drain asks for. -/
theorem ReadsOn.firstPage {store : Store} (h : ReadsOn store d) :
    Paging.firstPage Stored.seq HISTORY_PAGE (store.logOf d.hid) d.after =
      ((store.logOf d.hid).drop (d.pages * HISTORY_PAGE)).take HISTORY_PAGE := by
  rw [Paging.firstPage, h.after]

/-- A turn of the loop: the log is at its end, or the page is folded in and the next one asked for,
unless it was the twentieth. -/
theorem drainRound_cases (hsorted : r.store.Sorted)
    (hdraining : r.draining = old ++ [d]) (hreads : ReadsOn r.store d)
    (hclean : Clean place opened ((r.store.logOf d.hid).take drainLimit)) :
    let rest := (r.store.logOf d.hid).drop (d.pages * HISTORY_PAGE)
    (rest = [] ∧ drainRound place me opened old.length r =
        Room.nextLog { r with draining := old } d.alts) ∨
      ∃ d' : Drain, d'.hid = d.hid ∧ d'.alts = d.alts ∧ d'.pages = d.pages + 1 ∧
        Paging.above Stored.seq (r.store.logOf d.hid) d'.after = rest.drop HISTORY_PAGE ∧
        drainRound place me opened old.length r =
          (if d.pages + 1 < 20 then
            Room.ask { r with
              draining := old, log := readInto place opened r.log (rest.take HISTORY_PAGE) } d'
          else
            Room.nextLog { r with
              draining := old
              log := readInto place opened r.log (rest.take HISTORY_PAGE) } d.alts) := by
  intro rest
  have hpage : Paging.firstPage Stored.seq HISTORY_PAGE (r.store.logOf d.hid) d.after =
      rest.take HISTORY_PAGE := hreads.firstPage
  -- the page is within the first thousand entries, which are clean
  have hsub : rest.take HISTORY_PAGE ⊆ (r.store.logOf d.hid).take drainLimit := by
    have hpages := hreads.pages
    have hlimit : drainLimit =
        d.pages * HISTORY_PAGE + HISTORY_PAGE + (19 - d.pages) * HISTORY_PAGE := by
      unfold drainLimit HISTORY_PAGE
      omega
    rw [hlimit, List.take_add, List.take_add]
    exact fun s hs => List.mem_append_left _ (List.mem_append_right _ hs)
  rw [drainRound_eq hdraining, hpage]
  unfold Room.foldDrained
  split
  · next hlast =>
    refine .inl ⟨?_, rfl⟩
    have hnil := List.getLast?_eq_none_iff.mp hlast
    rcases List.take_eq_nil_iff.mp hnil with hzero | hnil
    · cases hzero
    · exact hnil
  · next last hlast =>
    refine .inr ⟨{ d with after := last.seq, pages := d.pages + 1 }, rfl, rfl, rfl, ?_, ?_⟩
    · rw [← hpage] at hlast
      rw [Paging.above_next (hsorted.logOf d.hid) hlast, hreads.after]
    · have hok := (hclean.mono hsub).isOk r.log
      have hread := (hclean.mono hsub).addEntries r.log
      cases hadded :
        (addEntries place r.log (Room.openPage (rest.take HISTORY_PAGE) opened false)).2 with
      | error e =>
        rw [hadded] at hok
        cases hok
      | ok total =>
        dsimp only
        rw [hread, hadded]
        rfl

/-- The rest of a log is read, up to twenty pages of it, and then the next log.  The induction is on
the pages that are left. -/
theorem read_log (me : Str) {k : ℕ}
    (hsorted : r.store.Sorted) (hdraining : r.draining = old ++ [d]) (hreads : ReadsOn r.store d)
    (hpages : d.pages + k + 1 = 20)
    (hclean : Clean place opened ((r.store.logOf d.hid).take drainLimit)) :
    ∃ (n : ℕ) (r₀ : Room), (drainRound place me opened old.length)^[n] r = r₀.nextLog d.alts ∧
      r₀.draining = old ∧ r₀.store = r.store ∧
      r₀.log = readInto place opened r.log
        (((r.store.logOf d.hid).drop (d.pages * HISTORY_PAGE)).take ((k + 1) * HISTORY_PAGE)) := by
  induction k generalizing r d with
  | zero =>
    -- the twentieth page: the log is left, whether or not it is at its end
    refine ⟨1, ?_⟩
    rw [Function.iterate_one, Nat.zero_add, Nat.one_mul]
    rcases drainRound_cases hsorted hdraining hreads hclean with
      ⟨hend, hround⟩ | ⟨d', -, -, -, -, hround⟩
    · refine ⟨_, hround, rfl, rfl, ?_⟩
      rw [hend]
      rfl
    · rw [if_neg (by omega)] at hround
      exact ⟨_, hround, rfl, rfl, rfl⟩
  | succ k ih =>
    rcases drainRound_cases hsorted hdraining hreads hclean with
      ⟨hend, hround⟩ | ⟨d', hhid, halts, hd', hafter, hround⟩
    · refine ⟨1, _, hround, rfl, rfl, ?_⟩
      rw [hend]
      rfl
    · rw [if_pos (by omega)] at hround
      have hreads' : ReadsOn r.store { d' with reply := none } := by
        refine ⟨?_, ?_⟩
        · change Paging.above Stored.seq (r.store.logOf d'.hid) d'.after =
            (r.store.logOf d'.hid).drop (d'.pages * HISTORY_PAGE)
          rw [hhid, hafter, hd', List.drop_drop, Nat.succ_mul]
        · change d'.pages < 20
          omega
      have hsorted' : (drainRound place me opened old.length r).store.Sorted := by
        rw [hround]
        exact hsorted
      rw [hround] at hsorted'
      obtain ⟨n, r₀, hn, hold, hstore, hlog⟩ :=
        ih (d := { d' with reply := none }) hsorted' rfl hreads' (by dsimp only; omega)
          (hhid ▸ hclean)
      refine ⟨n + 1, r₀, ?_, hold, hstore, ?_⟩
      · rw [Function.iterate_succ_apply, hround, hn, ← halts]
      · -- the page that was read and the pages after it follow one another
        rw [hlog]
        change readInto place opened (readInto place opened r.log _)
          (((r.store.logOf d'.hid).drop (d'.pages * HISTORY_PAGE)).take _) = _
        rw [← readInto_append, hhid, hd', Nat.succ_mul d.pages, ← List.drop_drop, ← List.take_add,
          Nat.succ_mul (k + 1), Nat.add_comm ((k + 1) * _)]

/-- The entries that `drainAlternateLogs` reads: of every log whose id the relay accepts, the first
thousand. -/
def readOf (store : Store) (alts : List Value) : List Stored :=
  (alts.filterMap logId).flatMap fun hid => (store.logOf hid).take drainLimit

/-- All logs are read, one after the other. -/
theorem read_alts (hsorted : r.store.Sorted)
    (hdraining : r.draining = old) (hclean : Clean place opened (readOf r.store alts)) :
    ∃ n, ((drainRound place me opened old.length)^[n] (r.nextLog alts)).draining = old ∧
      ((drainRound place me opened old.length)^[n] (r.nextLog alts)).log =
        readInto place opened r.log (readOf r.store alts) := by
  induction alts generalizing r with
  | nil => exact ⟨0, hdraining, rfl⟩
  | cons alt alts ih =>
    cases hid : logId alt with
    | none =>
      have hnext : r.nextLog (alt :: alts) = r.nextLog alts := by
        unfold Room.nextLog
        rw [Drain.next, hid]
      have hread : readOf r.store (alt :: alts) = readOf r.store alts := by
        rw [readOf, List.filterMap_cons_none hid, readOf]
      rw [hnext, hread]
      exact ih hsorted hdraining (hread ▸ hclean)
    | some hid' =>
      set d : Drain := { hid := hid', after := 0, pages := 0, alts, reply := none } with hd
      have hnext : r.nextLog (alt :: alts) = r.ask d := by
        unfold Room.nextLog
        rw [Drain.next, hid]
      have hread : readOf r.store (alt :: alts) =
          (r.store.logOf hid').take drainLimit ++ readOf r.store alts := by
        rw [readOf, List.filterMap_cons_some hid, List.flatMap_cons]
        rfl
      rw [hread] at hclean
      have hreads : ReadsOn r.store d := by
        refine ⟨?_, Nat.zero_lt_succ _⟩
        rw [show d.pages * HISTORY_PAGE = 0 from Nat.zero_mul _, List.drop_zero]
        exact Paging.above_eq_self fun s hs => hsorted.pos s (List.mem_of_mem_filter hs)
      have hasked : (r.ask d).draining = old ++ [d] := congrArg (· ++ [d]) hdraining
      have hsorted' : (r.ask d).store.Sorted := hsorted
      obtain ⟨n, r₀, hn, hold, hstore, hlog⟩ :=
        read_log me hsorted' hasked hreads (k := 19) rfl (hclean.mono (List.subset_append_left _ _))
      have hstore : r₀.store = r.store := hstore
      -- `n` rounds for this log, and `m` for those after it
      obtain ⟨m, hm, hmlog⟩ := ih (hstore ▸ hsorted) hold
        (hstore ▸ hclean.mono (List.subset_append_right _ _))
      refine ⟨m + n, ?_, ?_⟩
      · rw [hnext, Function.iterate_add_apply, hn]
        exact hm
      · rw [hnext, Function.iterate_add_apply, hn]
        refine hmlog.trans ?_
        rw [hlog, hread, readInto_append, hstore]
        rfl

/-- Once all logs are read the working copy stays as it is. -/
theorem drained_eq {n m : ℕ} (hn : (drained place me opened r n).draining = r.draining)
    (hm : (drained place me opened r m).draining = r.draining) :
    drained place me opened r n = drained place me opened r m := by
  have hfixed : ∀ {n k}, (drained place me opened r n).draining = r.draining →
      drained place me opened r (k + n) = drained place me opened r n := by
    intro n k hn
    rw [drained, Function.iterate_add_apply]
    exact Function.iterate_fixed (drainRound_of_done (le_of_eq (congrArg List.length hn))) k
  rcases Nat.le_total n m with h | h
  · obtain ⟨k, rfl⟩ := Nat.exists_eq_add_of_le' h
    exact (hfixed hn).symm
  · obtain ⟨k, rfl⟩ := Nat.exists_eq_add_of_le' h
    exact hfixed hm

/-- `drainAlternateLogs` ends, and the working copy has read the first thousand entries of every
log. -/
theorem drained_ends (me : Str) (hsorted : r.store.Sorted)
    (halts : (r.entry.get (lit "alts")).elements = .ok alts)
    (hclean : Clean place opened (readOf r.store alts)) :
    ∃ n, (drained place me opened r n).draining = r.draining ∧
      (drained place me opened r n).log = readInto place opened r.log (readOf r.store alts) := by
  have hstart : r.drainAlternateLogs = r.nextLog alts := by
    unfold Room.drainAlternateLogs
    rw [halts]
  unfold drained
  rw [hstart]
  exact read_alts hsorted rfl hclean

theorem drained_iff (hsorted : r.store.Sorted)
    (halts : (r.entry.get (lit "alts")).elements = .ok alts)
    (hclean : Clean place opened (readOf r.store alts)) {n : ℕ}
    (hn : (drained place me opened r n).draining = r.draining) :
    (∀ hid ∈ alts.filterMap logId, ∀ s ∈ r.store.logOf hid,
        Kept place opened (drained place me opened r n).log s) ↔
      ∀ hid ∈ alts.filterMap logId, ∀ s ∈ (r.store.logOf hid).drop drainLimit,
        AddsNothing place opened r.log (readOf r.store alts) s := by
  obtain ⟨m, hm, hlog⟩ := drained_ends me hsorted halts hclean
  rw [drained_eq hn hm, hlog, ← hclean.addEntries]
  simp only [kept_iff_addsNothing (hclean.isOk r.log)]
  refine forall₂_congr fun hid hhid => ?_
  refine ⟨fun h s hs => h s (List.mem_of_mem_drop hs), fun h s hs => ?_⟩
  rw [← List.take_append_drop drainLimit (r.store.logOf hid)] at hs
  rcases List.mem_append.mp hs with hs | hs
  · exact addsNothing_of_mem (List.mem_flatMap.mpr ⟨hid, hhid, hs⟩)
  · exact h s hs

/-- **Catching up leaves no hole exactly when what it does not read adds nothing**, in every room
that a run leads to.  After `catchUpLogs`, which returns, every entry of the channel's log above
the highest number is in the working copy just if those beyond the first fifty add nothing; and
`drainAlternateLogs`, which ends, has read every entry of the other logs just if those beyond the
first thousand of a log add nothing. -/
theorem no_hole_iff (place : Place) (me : Str) (entry : Value) (l : List Action)
    (opened : Stored → Option Verdict) {r : Room} (hr : (Room.start entry).run place me l = r) :
    (∀ hid, logId r.entry = some hid → (r.entry.get (lit "hkey")).truthy = true → r.loaded = true →
      (addEntries place r.log
        (Room.openPage ((r.newer hid).take HISTORY_PAGE) opened true)).2.isOk = true →
      ((∀ s ∈ r.store.logOf hid, r.log.newest < s.seq →
          Kept place opened (r.caughtUp place me opened).log s) ↔
        ∀ s ∈ (r.newer hid).drop HISTORY_PAGE,
          AddsNothing place opened r.log ((r.newer hid).take HISTORY_PAGE) s)) ∧
    (∀ alts, (r.entry.get (lit "alts")).elements = .ok alts →
      Clean place opened (readOf r.store alts) →
      (∃ n, (drained place me opened r n).draining = r.draining) ∧
      ∀ n, (drained place me opened r n).draining = r.draining →
        ((∀ hid ∈ alts.filterMap logId, ∀ s ∈ r.store.logOf hid,
            Kept place opened (drained place me opened r n).log s) ↔
          ∀ hid ∈ alts.filterMap logId, ∀ s ∈ (r.store.logOf hid).drop drainLimit,
            AddsNothing place opened r.log (readOf r.store alts) s)) := by
  have hsorted : r.store.Sorted := hr ▸ Room.sorted_run place me entry l
  refine ⟨fun hid hlog hkey hloaded hok => caughtUp_iff hlog hkey hloaded hok,
    fun alts halts hclean => ⟨?_, fun n hn => drained_iff hsorted halts hclean hn⟩⟩
  obtain ⟨n, hn, -⟩ := drained_ends me hsorted halts hclean
  exact ⟨n, hn⟩

/-! ### A page and a line -/

/-- An open channel into which fifty-one lines are written while the device is away. -/
def whileAway : List Action :=
  [.load, .serve 0, .fold 0 fun _ => some .signed] ++
    (List.range 51).map fun k =>
      .append (lit "m") (lit "alice") (chatEntry (lit "alice") (.ofRat (k + 1)) (lit "hello"))

def awayRoom : Room := (Room.start (channelOf (lit "m"))).run ⟨[], []⟩ (lit "bob") whileAway

/-- The device catches up, its request is answered and nothing throws, and the last line is not
there. -/
theorem line_after_page_missed :
    logId awayRoom.entry = some (lit "m") ∧ (awayRoom.entry.get (lit "hkey")).truthy = true ∧
      awayRoom.loaded = true ∧
      (addEntries ⟨[], []⟩ awayRoom.log (Room.openPage ((awayRoom.newer (lit "m")).take HISTORY_PAGE)
        (fun _ => some .signed) true)).2.isOk = true ∧
      ∃ s ∈ awayRoom.store.logOf (lit "m"), awayRoom.log.newest < s.seq ∧
        ¬Kept ⟨[], []⟩ (fun _ => some .signed)
          (awayRoom.caughtUp ⟨[], []⟩ (lit "bob") fun _ => some .signed).log s := by
  have hlog : logId awayRoom.entry = some (lit "m") := by decide +kernel
  have hkey : (awayRoom.entry.get (lit "hkey")).truthy = true := by decide +kernel
  have hloaded : awayRoom.loaded = true := by decide +kernel
  have hpage : (addEntries ⟨[], []⟩ awayRoom.log (Room.openPage
        ((awayRoom.newer (lit "m")).take HISTORY_PAGE) (fun _ => some .signed) true)).2.isOk = true ∧
      (awayRoom.store.logOf (lit "m"))[50]?.any fun s => awayRoom.log.newest < s.seq ∧
        ¬(addEntries ⟨[], []⟩ awayRoom.log (Room.openPage
          ((awayRoom.newer (lit "m")).take HISTORY_PAGE) (fun _ => some .signed) true)).1.Has ⟨[], []⟩
            (s.item .signed) := by
    decide +kernel
  obtain ⟨s, hs, hmissed⟩ := (Option.any_eq_true _ _).mp hpage.2
  obtain ⟨hnewer, hmissed⟩ := of_decide_eq_true hmissed
  refine ⟨hlog, hkey, hloaded, hpage.1, s, List.mem_of_getElem? hs, hnewer, fun hkept => hmissed ?_⟩
  rw [log_caughtUp hlog hkey hloaded] at hkept
  exact hkept .signed rfl

/-- A channel with a second log, each of which has a line. -/
def twoLogs : Value :=
  .obj 0 [(lit "hid", .str (lit "a")), (lit "hkey", .str (lit "key")),
    (lit "alts", .arr 0 [channelOf (lit "m")])]

def lineInEach : List Action :=
  [.load, .serve 0, .fold 0 fun _ => some .signed,
    .append (lit "a") (lit "alice") (chatEntry (lit "alice") (.ofRat 5) (lit "hello")),
    .append (lit "m") (lit "carol") (chatEntry (lit "carol") (.ofRat 6) (lit "hi"))]

def bothRoom : Room := (Room.start twoLogs).run ⟨[], []⟩ (lit "bob") lineInEach

/-- Nothing is missed of logs that fit into their pages. -/
theorem short_logs_read :
    (∀ s ∈ bothRoom.store.logOf (lit "a"), bothRoom.log.newest < s.seq →
      Kept ⟨[], []⟩ (fun _ => some .signed)
        (bothRoom.caughtUp ⟨[], []⟩ (lit "bob") fun _ => some .signed).log s) ∧
    ∃ n, (drained ⟨[], []⟩ (lit "bob") (fun _ => some .signed) bothRoom n).draining =
        bothRoom.draining ∧
      ∀ s ∈ bothRoom.store.logOf (lit "m"), Kept ⟨[], []⟩ (fun _ => some .signed)
        (drained ⟨[], []⟩ (lit "bob") (fun _ => some .signed) bothRoom n).log s := by
  obtain ⟨hcaught, hdrained⟩ :=
    no_hole_iff ⟨[], []⟩ (lit "bob") twoLogs lineInEach (fun _ => some .signed) (r := bothRoom) rfl
  have halts : (bothRoom.entry.get (lit "alts")).elements = .ok [channelOf (lit "m")] := rfl
  have hids : [channelOf (lit "m")].filterMap logId = [lit "m"] := by decide +kernel
  -- both logs end within the pages that are read
  have hnewer : (bothRoom.newer (lit "a")).drop HISTORY_PAGE = [] :=
    List.isEmpty_iff.mp (by decide +kernel)
  have hother : (bothRoom.store.logOf (lit "m")).drop drainLimit = [] :=
    List.isEmpty_iff.mp (by decide +kernel)
  have hclean : Clean ⟨[], []⟩ (fun _ => some .signed)
      (readOf bothRoom.store [channelOf (lit "m")]) := by
    unfold Clean
    decide +kernel
  refine ⟨(hcaught (lit "a") (by decide +kernel) (by decide +kernel) (by decide +kernel)
    (by decide +kernel)).mpr fun s hs => ?_, ?_⟩
  · rw [hnewer] at hs
    cases hs
  · obtain ⟨⟨n, hn⟩, hiff⟩ := hdrained _ halts hclean
    have hm : lit "m" ∈ [channelOf (lit "m")].filterMap logId := hids ▸ List.mem_cons_self ..
    refine ⟨n, hn, (hiff n hn).mpr (fun hid hhid s hs => ?_) (lit "m") hm⟩
    rw [hids] at hhid
    rw [List.mem_singleton.mp hhid, hother] at hs
    cases hs

end Quorum.History
