import Quorum.History.Issued
import Quorum.Log.Held
import Quorum.Log.Pages

/-!
# Scrolling back

`loadOlderMessages` asks for the page below the lowest number it has folded in.  That number moves
with the entries that open and are not forged, and not with the page: fifty entries in a row that
this device cannot open, or that are in the name of somebody else, are asked for again and again,
and what is older is never shown (`unreadable_page_stays`).

So scrolling back reaches the start of the log exactly when every fifty entries in a row, except the
first fifty, include one that opens and is not forged; each call then marks the log complete or asks
lower the next time, and at the end everything that could be opened was folded in
(`scroll_back_ends_iff`).
-/

namespace Quorum.History

open Js

variable {place : Place} {me : Str} {opened : Stored → Option Verdict} {r : Room} {hid : Str}

/-! ### Folding a page in -/

/-- The entry opens, and is not in the name of somebody who did not sign it. -/
def seen (opened : Stored → Option Verdict) (s : Stored) : Bool :=
  (opened s).any fun auth => (s.item auth).considered

theorem mem_notedSeqs_openPage {page : List Stored} {n : ℕ} :
    n ∈ notedSeqs (Room.openPage page opened true) ↔ ∃ s ∈ page, seen opened s ∧ s.seq = n := by
  rw [mem_notedSeqs]
  constructor
  · rintro ⟨item, hitem, hnoted⟩
    obtain ⟨s, hs, auth, hauth, rfl⟩ := mem_openPage.mp hitem
    obtain ⟨hconsidered, hseq⟩ := Option.ite_none_right_eq_some.mp hnoted
    exact ⟨s, hs, (Option.any_eq_true _ _).mpr ⟨auth, hauth, hconsidered⟩, Option.some.inj hseq⟩
  · rintro ⟨s, hs, hseen, rfl⟩
    obtain ⟨auth, hauth, hconsidered⟩ := (Option.any_eq_true _ _).mp hseen
    exact ⟨s.item auth, mem_openPage.mpr ⟨s, hs, auth, hauth, rfl⟩, if_pos hconsidered⟩

/-- The lowest number of the working copy is now that of the first entry of the page that was seen,
if there is one. -/
theorem oldest_addEntries {log : ChannelLog} {page : List Stored}
    (hok : (addEntries place log (Room.openPage page opened true)).2.isOk = true)
    (hsorted : page.Pairwise (·.seq < ·.seq))
    (hbelow : ∀ s ∈ page, s.seq < log.oldest.getD MAX_SAFE_INTEGER) :
    (addEntries place log (Room.openPage page opened true)).1.oldest.getD MAX_SAFE_INTEGER =
      (page.find? (seen opened)).elim (log.oldest.getD MAX_SAFE_INTEGER) Stored.seq := by
  have hreached := reached_eq_self ((isOk_addEntries ..).mp hok)
  have holdest := oldest_foldl place (Room.openPage page opened true) log
  rw [addEntries_eq_foldl, hreached]
  cases hfind : page.find? (seen opened) with
  | none =>
    have hempty : notedSeqs (Room.openPage page opened true) = ∅ := by
      refine Finset.eq_empty_of_forall_notMem fun n hn => ?_
      obtain ⟨s, hs, hseen, -⟩ := mem_notedSeqs_openPage.mp hn
      exact List.find?_eq_none.mp hfind s hs hseen
    rw [hempty, Finset.min_empty, min_top_right] at holdest
    rw [lowest_injective holdest]
    rfl
  | some g =>
    obtain ⟨hg, as, bs, hpage, has⟩ := List.find?_eq_some_iff_append.mp hfind
    have hmem : g ∈ page := List.mem_of_find?_eq_some hfind
    -- pages are in order, so the first entry that is seen has the lowest number
    have hmin : (notedSeqs (Room.openPage page opened true)).min = (g.seq : WithTop ℕ) := by
      refine le_antisymm (Finset.min_le (mem_notedSeqs_openPage.mpr ⟨g, hmem, hg, rfl⟩)) ?_
      refine Finset.le_min fun n hn => ?_
      obtain ⟨s, hs, hseen, rfl⟩ := mem_notedSeqs_openPage.mp hn
      rw [hpage] at hs hsorted
      rcases List.mem_append.mp hs with hs | hs
      · have hnot := has s hs
        rw [hseen] at hnot
        cases hnot
      · rcases List.mem_cons.mp hs with rfl | hs
        · exact le_rfl
        · have hgb := (List.pairwise_append.mp hsorted).2.1
          exact WithTop.coe_le_coe.mpr (List.rel_of_pairwise_cons hgb hs).le
    have hlt := hbelow g hmem
    have hlow : lowest log.oldest ⊓ g.seq = lowest (some g.seq) := by
      cases ho : log.oldest with
      | none => exact min_eq_right le_top
      | some o =>
        rw [ho] at hlt
        exact min_eq_right (WithTop.coe_le_coe.mpr hlt.le)
    rw [hmin] at holdest
    rw [lowest_injective (holdest.trans hlow)]
    rfl

/-! ### One call -/

namespace Room

/-- The bound that `loadOlderMessages` asks with. -/
def bound (r : Room) : ℕ := r.log.oldest.getD MAX_SAFE_INTEGER

/-- The page that the relay answers with. -/
def olderPage (r : Room) (hid : Str) : List Stored :=
  Paging.lastPage Stored.seq HISTORY_PAGE (r.store.logOf hid) r.bound

/-- The page is all that is left below the bound. -/
def AtStart (r : Room) (hid : Str) : Prop :=
  Paging.First Stored.seq HISTORY_PAGE (r.store.logOf hid) r.bound

instance AtStart.decidable (r : Room) (hid : Str) : Decidable (r.AtStart hid) :=
  inferInstanceAs (Decidable (_ ≤ _))

variable (place me opened)

/-- `loadOlderMessages(serverId, channel)` from its beginning to its end, with nothing in between.
-/
def scrollBack (r : Room) : Room :=
  r.run place me [.older, .serve r.fetching.length, .fold r.fetching.length opened]

/-- No entry of the page ends the call with an exception. -/
def Returns (r : Room) : Prop :=
  r.log.complete = false → ∀ hid ∈ logId r.entry,
    (addEntries place r.log (openPage (r.olderPage hid) opened true)).2.isOk

variable {place me opened}

theorem scrollBack_of_complete (h : r.log.complete = true) : r.scrollBack place me opened = r := by
  have holder : r.step place me .older = r := by
    dsimp only [step, loadOlderMessages]
    rw [if_pos h]
  dsimp only [scrollBack, run, List.foldl_cons, List.foldl_nil]
  rw [holder]
  dsimp only [step]
  rw [List.getElem?_eq_none le_rfl]
  rw [List.getElem?_eq_none le_rfl]

/-- A call asks for a page and folds it in. -/
theorem scrollBack_eq (hlog : logId r.entry = some hid)
    (hkey : (r.entry.get (lit "hkey")).truthy = true) (hopen : r.log.complete = false) :
    r.scrollBack place me opened =
      foldPage place { r with requests := r.requests ++ [.page hid (.before r.bound)] }
        { hid, bound := .before r.bound, first := false,
          reply := some (r.olderPage hid, decide (r.AtStart hid)) }
        (r.olderPage hid, decide (r.AtStart hid)) opened := by
  have holder : r.step place me .older = r.fetchPage (.before r.bound) false := by
    dsimp only [step, loadOlderMessages]
    rw [if_neg (by rw [hopen]; exact Bool.false_ne_true)]
    rfl
  have hserved := fetchPage_served place me hlog hkey (.before r.bound) false opened
  rw [← holder, Store.page_before] at hserved
  exact hserved

end Room

theorem complete_fold1 (place : Place) (log : ChannelLog) (item : Item) :
    (fold1 place log item).complete = log.complete := by
  have hnote : (log.noteSeq item.seq).complete = log.complete := by
    cases item.seq <;> rfl
  have hstore : ∀ (log : ChannelLog) (m : Message), (log.store m).1.complete = log.complete := by
    intro log m
    unfold ChannelLog.store
    dsimp only
    split <;> [split; skip] <;> rfl
  have hfile : ∀ (log : ChannelLog) (entry : Value) (id : Str) (hid : mutationId entry = .ok id)
      (seq : Option ℕ), (log.file entry id hid seq).1.complete = log.complete := by
    intro log entry id hid seq
    unfold ChannelLog.file
    cases seq <;> dsimp only <;> split <;> rfl
  unfold fold1 addEntry
  split
  · rfl
  · dsimp only
    split
    · split
      · exact hnote
      · exact hnote
      · exact (hstore _ _).trans hnote
    · split
      · split
        · exact hnote
        · split
          · exact hnote
          · exact (hfile _ _ _ _ _).trans hnote
      · exact hnote

/-- Only `fetchPage` marks a log complete. -/
theorem complete_addEntries (place : Place) (log : ChannelLog) (items : List Item) :
    (addEntries place log items).1.complete = log.complete := by
  rw [addEntries_eq_foldl]
  exact List.foldlRecOn (motive := fun log' : ChannelLog => log'.complete = log.complete) _ _ rfl
    fun log' hlog item _ => (complete_fold1 place log' item).trans hlog

/-- **What a call does**: the page is folded in, and the log is complete if the page is all that was
left. -/
theorem asks_scrollBack (me : Str) (hlog : logId r.entry = some hid)
    (hkey : (r.entry.get (lit "hkey")).truthy = true) (hopen : r.log.complete = false)
    (hret : r.Returns place opened) :
    Room.Asks
      { r with
        log := { r.withPage place (r.olderPage hid) opened with complete := decide (r.AtStart hid) }
        folded := r.folded ++ r.olderPage hid }
      (r.scrollBack place me opened) := by
  have hok := hret hopen hid hlog
  have hcomplete : (r.withPage place (r.olderPage hid) opened).complete = false :=
    (complete_addEntries ..).trans hopen
  rw [Room.scrollBack_eq hlog hkey hopen]
  unfold Room.foldPage
  dsimp only
  cases hadded : (addEntries place r.log (Room.openPage (r.olderPage hid) opened true)).2 with
  | error e =>
    rw [hadded] at hok
    cases hok
  | ok total =>
    by_cases hstart : r.AtStart hid
    · simp only [hstart, decide_true, if_true, Bool.false_eq_true, if_false]
      exact ⟨rfl, rfl, rfl, rfl, rfl, rfl, rfl, rfl⟩
    · simp only [hstart, decide_false, Bool.false_eq_true, if_false]
      refine ⟨rfl, rfl, ?_, rfl, rfl, rfl, rfl, rfl⟩
      rw [← hcomplete]
      rfl

/-! ### Call after call -/

/-- What one call does to the cursor, the mark and the lines of a log that is not complete. -/
structure Called (place : Place) (opened : Stored → Option Verdict) (hid : Str) (r r' : Room) :
    Prop where
  store : r'.store = r.store
  entry : r'.entry = r.entry
  complete : r'.log.complete = decide (r.AtStart hid)
  bound : r'.bound =
    Paging.nextBound Stored.seq (seen opened) HISTORY_PAGE (r.store.logOf hid) r.bound
  page : ∀ s ∈ r.olderPage hid, Kept place opened r'.log s
  kept : ∀ s, Kept place opened r.log s → Kept place opened r'.log s

theorem called_scrollBack (hsorted : r.store.Sorted) (hlog : logId r.entry = some hid)
    (hkey : (r.entry.get (lit "hkey")).truthy = true) (hopen : r.log.complete = false)
    (hret : r.Returns place opened) : Called place opened hid r (r.scrollBack place me opened) := by
  have hok := hret hopen hid hlog
  have hask := asks_scrollBack me hlog hkey hopen hret
  have hholds := holds_openPage hok
  refine ⟨hask.store, hask.entry, ?_, ?_, fun s hs auth hauth i hi => ?_,
    fun s hkept auth hauth i hi => ?_⟩
  · rw [hask.log]
  · rw [Room.bound, hask.log]
    refine oldest_addEntries hok ((hsorted.logOf hid).filter _ |>.drop) fun s hs => ?_
    have hbelow := List.mem_of_mem_drop hs
    exact of_decide_eq_true (List.mem_filter.mp hbelow).2
  · rw [hask.log]
    exact (hholds i).mpr (.inr ⟨s, hs, auth, hauth, hi⟩)
  · rw [hask.log]
    exact (hholds i).mpr (.inl (hkept auth hauth i hi))

section

variable (place me opened)

/-- The room after a number of calls. -/
def scrolled (r : Room) (n : ℕ) : Room := (Room.scrollBack place me opened)^[n] r

/-- The bound of a log after a number of pages, of which every one that shows something lowers it.
-/
def boundOf (r : Room) (hid : Str) (n : ℕ) : ℕ :=
  Paging.boundAfter Stored.seq (seen opened) HISTORY_PAGE (r.store.logOf hid) r.bound n

/-- Of any fifty entries in a row below the bound, which are not the first of the log, one opens and
is not forged. -/
def Readable (r : Room) (hid : Str) : Prop :=
  Paging.Dense Stored.seq (seen opened) HISTORY_PAGE (r.store.logOf hid) r.bound

variable {place me opened}

theorem scrolled_succ (r : Room) (n : ℕ) :
    scrolled place me opened r (n + 1) = (scrolled place me opened r n).scrollBack place me opened :=
  Function.iterate_succ_apply' ..

end

/-- After a number of calls: the log is not complete, and what is not below the bound is in the
working copy, or it is complete, and everything is. -/
structure Progress (place : Place) (opened : Stored → Option Verdict) (hid : Str) (r r' : Room)
    (n : ℕ) : Prop where
  store : r'.store = r.store
  entry : r'.entry = r.entry
  running : r'.log.complete = false → r'.bound = boundOf opened r hid n ∧
    ∀ s ∈ Paging.below Stored.seq (r.store.logOf hid) r.bound,
      s ∈ Paging.below Stored.seq (r.store.logOf hid) r'.bound ∨ Kept place opened r'.log s
  ended : r'.log.complete = true →
    (∃ m, Paging.First Stored.seq HISTORY_PAGE (r.store.logOf hid) (boundOf opened r hid m)) ∧
      ∀ s ∈ Paging.below Stored.seq (r.store.logOf hid) r.bound, Kept place opened r'.log s

/-- **Step.** -/
theorem Progress.call {r' : Room} {n : ℕ} (h : Progress place opened hid r r' n)
    (hsorted : r.store.Sorted) (hlog : logId r.entry = some hid)
    (hkey : (r.entry.get (lit "hkey")).truthy = true) (hret : r'.Returns place opened) :
    Progress place opened hid r (r'.scrollBack place me opened) (n + 1) := by
  cases hc : r'.log.complete with
  | true =>
    rw [Room.scrollBack_of_complete hc]
    refine ⟨h.store, h.entry, fun hopen => ?_, h.ended⟩
    rw [hc] at hopen
    cases hopen
  | false =>
    obtain ⟨hbound, hleft⟩ := h.running hc
    have hcalled : Called place opened hid r' (r'.scrollBack place me opened) :=
      called_scrollBack (h.store ▸ hsorted) (h.entry ▸ hlog) (h.entry ▸ hkey) hc hret
    obtain ⟨hstore, hentry, hcomplete, hnext, hpage, hkept⟩ := hcalled
    rw [h.store] at hstore hnext
    refine ⟨hstore, hentry.trans h.entry, fun _ => ⟨?_, fun s hs => ?_⟩,
      fun hend => ⟨⟨n, ?_⟩, fun s hs => ?_⟩⟩
    · rw [hnext, hbound]
      exact (Paging.boundAfter_succ n).symm
    · rcases hleft s hs with hs | hs
      · rw [hnext]
        have hcases := Paging.below_or_page (hsorted.logOf hid) (seen opened) HISTORY_PAGE hs
        refine hcases.imp_right fun hp => hpage s ?_
        rw [Room.olderPage, h.store]
        exact hp
      · exact .inr (hkept s hs)
    · rw [hcomplete, decide_eq_true_eq, Room.AtStart, h.store, hbound] at hend
      exact hend
    · rw [hcomplete, decide_eq_true_eq, Room.AtStart, h.store] at hend
      rcases hleft s hs with hs | hs
      · refine hpage s ?_
        rw [Room.olderPage, h.store, hend.lastPage_eq]
        exact hs
      · exact hkept s hs

section

variable (hsorted : r.store.Sorted) (hlog : logId r.entry = some hid)
  (hkey : (r.entry.get (lit "hkey")).truthy = true) (hopen : r.log.complete = false)
  (hret : ∀ n, (scrolled place me opened r n).Returns place opened)

include hsorted hlog hkey hopen hret

/-- **Run.** -/
theorem progress_scrolled (n : ℕ) :
    Progress place opened hid r (scrolled place me opened r n) n := by
  induction n with
  | zero =>
    refine ⟨rfl, rfl, fun _ => ⟨rfl, fun s hs => .inl hs⟩, fun hend => ?_⟩
    rw [show (scrolled place me opened r 0).log.complete = false from hopen] at hend
    cases hend
  | succ n ih =>
    rw [scrolled_succ]
    exact ih.call hsorted hlog hkey (hret n)

/-- A log that is marked complete is one whose first page was reached. -/
theorem readable_of_complete {n : ℕ} (h : (scrolled place me opened r n).log.complete = true) :
    Readable opened r hid :=
  (Paging.reaches_first_iff (hsorted.logOf hid)).mp
    ((progress_scrolled hsorted hlog hkey hopen hret n).ended h).1

/-- A call on a log that is not complete yet. -/
theorem called_scrolled {n : ℕ} (h : (scrolled place me opened r n).log.complete = false) :
    (scrolled place me opened r (n + 1)).bound = boundOf opened r hid (n + 1) ∧
      ((scrolled place me opened r (n + 1)).log.complete = true ↔
        Paging.First Stored.seq HISTORY_PAGE (r.store.logOf hid) (boundOf opened r hid n)) := by
  have hprogress := progress_scrolled hsorted hlog hkey hopen hret n
  obtain ⟨hbound, -⟩ := hprogress.running h
  have hcalled : Called place opened hid (scrolled place me opened r n)
      (scrolled place me opened r (n + 1)) := by
    rw [scrolled_succ]
    exact called_scrollBack (hprogress.store ▸ hsorted) (hprogress.entry ▸ hlog)
      (hprogress.entry ▸ hkey) h (hret n)
  constructor
  · rw [hcalled.bound, hprogress.store, hbound]
    exact (Paging.boundAfter_succ n).symm
  · rw [hcalled.complete, decide_eq_true_eq, Room.AtStart, hprogress.store, hbound]

/-- Each call marks the log complete or lowers the bound of the next one. -/
theorem calls_progress_iff :
    (∀ n, (scrolled place me opened r (n + 1)).log.complete = true ∨
      (scrolled place me opened r (n + 1)).bound < (scrolled place me opened r n).bound) ↔
      Readable opened r hid := by
  constructor
  · intro h
    by_cases hend : ∃ n, (scrolled place me opened r n).log.complete = true
    · obtain ⟨n, hn⟩ := hend
      exact readable_of_complete hsorted hlog hkey hopen hret hn
    · -- the log is never complete, so every call lowers the bound
      simp only [not_exists, Bool.not_eq_true] at hend
      refine (Paging.progress_iff (hsorted.logOf hid)).mp fun n => .inr ?_
      have hlower := (h n).resolve_left (by rw [hend (n + 1)]; exact Bool.false_ne_true)
      have hprogress := progress_scrolled hsorted hlog hkey hopen hret n
      rw [(called_scrolled hsorted hlog hkey hopen hret (hend n)).1,
        (hprogress.running (hend n)).1] at hlower
      exact hlower
  · intro hread n
    cases hc : (scrolled place me opened r n).log.complete with
    | true =>
      rw [scrolled_succ, Room.scrollBack_of_complete hc]
      exact .inl hc
    | false =>
      obtain ⟨hbound, hcomplete⟩ := called_scrolled hsorted hlog hkey hopen hret hc
      have hprogress := progress_scrolled hsorted hlog hkey hopen hret n
      rw [hcomplete, hbound, (hprogress.running hc).1]
      exact (Paging.progress_iff (hsorted.logOf hid)).mpr hread n

/-- The start of the log is reached. -/
theorem calls_end_iff :
    (∃ n, (scrolled place me opened r n).log.complete = true) ↔ Readable opened r hid := by
  constructor
  · rintro ⟨n, hn⟩
    exact readable_of_complete hsorted hlog hkey hopen hret hn
  · intro hread
    obtain ⟨m, hm⟩ := (Paging.reaches_first_iff (hsorted.logOf hid)).mpr hread
    cases hc : (scrolled place me opened r m).log.complete with
    | true => exact ⟨m, hc⟩
    | false => exact ⟨m + 1, (called_scrolled hsorted hlog hkey hopen hret hc).2.mpr hm⟩

end

/-- **Scrolling back ends at the start of the log exactly when every fifty entries in a row, except
the first ones, include one that opens and is not forged**, in every room that a run leads to and as
long as no call throws.  Each call then marks the log complete or lowers the bound of the next one,
and when the log is complete everything that opens below the first bound was folded in. -/
theorem scroll_back_ends_iff (place : Place) (me : Str) (entry : Value) (l : List Action)
    (opened : Stored → Option Verdict) {r : Room} {hid : Str}
    (hr : (Room.start entry).run place me l = r) (hlog : logId r.entry = some hid)
    (hkey : (r.entry.get (lit "hkey")).truthy = true) (hopen : r.log.complete = false)
    (hret : ∀ n, (scrolled place me opened r n).Returns place opened) :
    ((∀ n, (scrolled place me opened r (n + 1)).log.complete = true ∨
        (scrolled place me opened r (n + 1)).bound < (scrolled place me opened r n).bound) ↔
      Readable opened r hid) ∧
    ((∃ n, (scrolled place me opened r n).log.complete = true ∧
        ∀ s ∈ r.store.logOf hid, s.seq < r.bound →
          Kept place opened (scrolled place me opened r n).log s) ↔
      Readable opened r hid) := by
  have hsorted : r.store.Sorted := hr ▸ Room.sorted_run place me entry l
  refine ⟨calls_progress_iff hsorted hlog hkey hopen hret, ?_⟩
  rw [← calls_end_iff hsorted hlog hkey hopen hret]
  constructor
  · rintro ⟨n, hn, -⟩
    exact ⟨n, hn⟩
  · rintro ⟨n, hn⟩
    refine ⟨n, hn, fun s hs hbelow => ?_⟩
    have hmem : s ∈ Paging.below Stored.seq (r.store.logOf hid) r.bound :=
      List.mem_filter.mpr ⟨hs, decide_eq_true hbelow⟩
    exact ((progress_scrolled hsorted hlog hkey hopen hret n).ended hn).2 s hmem

/-! ### A page that nobody can read -/

/-- A call changes nothing at the relay and nothing in the channel's settings. -/
theorem Room.same_scrollBack (r : Room) :
    (r.scrollBack place me opened).store = r.store ∧
      (r.scrollBack place me opened).entry = r.entry := by
  have holder := r.asks_loadOlderMessages
  have hserve : ∀ (r : Room) (i : ℕ), (r.step place me (.serve i)).store = r.store ∧
      (r.step place me (.serve i)).entry = r.entry := by
    intro r i
    dsimp only [step]
    split <;> exact ⟨rfl, rfl⟩
  have hfold : ∀ (r : Room) (i : ℕ), (r.step place me (.fold i opened)).store = r.store ∧
      (r.step place me (.fold i opened)).entry = r.entry := by
    intro r i
    dsimp only [step]
    split
    · next f _ =>
      split
      · next page _ =>
        obtain ⟨complete, hask⟩ :=
          asks_foldPage place { r with fetching := r.fetching.eraseIdx i } f page opened
        exact ⟨hask.store, hask.entry⟩
      · exact ⟨rfl, rfl⟩
    · exact ⟨rfl, rfl⟩
  dsimp only [scrollBack, run, List.foldl_cons, List.foldl_nil]
  rw [(hfold _ _).1, (hfold _ _).2, (hserve _ _).1, (hserve _ _).2]
  exact ⟨holder.store, holder.entry⟩

theorem same_scrolled (place : Place) (me : Str) (opened : Stored → Option Verdict) (r : Room)
    (n : ℕ) :
    (scrolled place me opened r n).store = r.store ∧
      (scrolled place me opened r n).entry = r.entry := by
  induction n with
  | zero => exact ⟨rfl, rfl⟩
  | succ n ih =>
    rw [scrolled_succ, (Room.same_scrollBack _).1, (Room.same_scrollBack _).2]
    exact ih

/-- Calls return when no entry that opens throws. -/
theorem returns_scrolled (hlog : logId r.entry = some hid)
    (h : ∀ s ∈ r.store.logOf hid, ∀ auth ∈ opened s, throws place (s.item auth) = false) (n : ℕ) :
    (scrolled place me opened r n).Returns place opened := by
  intro _ hid' hid'log
  obtain ⟨hstore, hentry⟩ := same_scrolled place me opened r n
  rw [hentry, hlog] at hid'log
  obtain rfl := Option.some.inj hid'log
  refine (isOk_addEntries ..).mpr fun item hitem => ?_
  obtain ⟨s, hs, auth, hauth, rfl⟩ := mem_openPage.mp hitem
  refine h s ?_ auth hauth
  rw [Room.olderPage, hstore] at hs
  exact List.mem_of_mem_filter (List.mem_of_mem_drop hs)

/-- A line, and fifty entries that somebody else writes in the name of its author. -/
def flooded : List Action :=
  .append (lit "m") (lit "alice") (chatEntry (lit "alice") (.ofRat 5) (lit "hello")) ::
    List.replicate 50
      (.append (lit "m") (lit "mallory") (chatEntry (lit "alice") (.ofRat 6) (lit "spam")))

def floodedRoom : Room := (Room.start (channelOf (lit "m"))).run ⟨[], []⟩ (lit "bob") flooded

/-- Only the first entry verifies, or the first and another one. -/
def firstOnly (s : Stored) : Option Verdict := if s.seq = 1 then some .signed else some .forged

def firstAndMiddle (s : Stored) : Option Verdict :=
  if s.seq = 1 ∨ s.seq = 30 then some .signed else some .forged

/-- The entries below the bound, all but the first of which are in a row of fifty. -/
def floodedLog : List Stored :=
  Paging.below Stored.seq (floodedRoom.store.logOf (lit "m")) floodedRoom.bound

theorem floodedRoom_spec :
    logId floodedRoom.entry = some (lit "m") ∧
      (floodedRoom.entry.get (lit "hkey")).truthy = true ∧ floodedRoom.log.complete = false ∧
      floodedLog.length = HISTORY_PAGE + 1 := by
  decide +kernel

/-- The only row of fifty that is not the first is the one after the first entry. -/
theorem floodedRoom_readable_iff (opened : Stored → Option Verdict) :
    Readable opened floodedRoom (lit "m") ↔ ∃ s ∈ floodedLog.drop 1, seen opened s := by
  obtain ⟨-, -, -, hfull⟩ := floodedRoom_spec
  constructor
  · intro h
    refine h (floodedLog.take 1) _ [] ?_ ?_ fun hnil => ?_
    · rw [List.append_nil, List.take_append_drop]
      rfl
    · rw [List.length_drop, hfull]
      rfl
    · have hlength := congrArg List.length hnil
      rw [List.length_take, hfull] at hlength
      cases hlength
  · rintro ⟨s, hs, hseen⟩ u w v hsplit hlen hne
    have hlength := congrArg List.length hsplit
    have hpos := List.length_pos_iff.mpr hne
    rw [List.length_append, List.length_append, hlen,
      show (Paging.below _ _ _).length = _ from hfull] at hlength
    obtain rfl : v = [] := List.length_eq_zero_iff.mp (by omega)
    have hdrop : floodedLog.drop 1 = w := by
      rw [show floodedLog = u ++ w ++ [] from hsplit, List.append_nil,
        show 1 = u.length by omega, List.drop_left]
    exact ⟨s, hdrop ▸ hs, hseen⟩

/-- Fifty forged entries are asked for again and again: every call returns, none lowers the bound or
marks the log complete, and the line before them, which verifies, is not read. -/
theorem unreadable_page_stays :
    (∀ n, (scrolled ⟨[], []⟩ (lit "bob") firstOnly floodedRoom n).Returns ⟨[], []⟩ firstOnly) ∧
      (∀ n, (scrolled ⟨[], []⟩ (lit "bob") firstOnly floodedRoom n).log.complete = false) ∧
      (scrolled ⟨[], []⟩ (lit "bob") firstOnly floodedRoom 1).bound = floodedRoom.bound ∧
      ∃ s ∈ floodedRoom.store.logOf (lit "m"), firstOnly s = some .signed ∧
        ¬(scrolled ⟨[], []⟩ (lit "bob") firstOnly floodedRoom 1).log.Has ⟨[], []⟩
          (s.item .signed) := by
  obtain ⟨hlog, hkey, hopen, -⟩ := floodedRoom_spec
  have hret : ∀ n,
      (scrolled ⟨[], []⟩ (lit "bob") firstOnly floodedRoom n).Returns ⟨[], []⟩ firstOnly :=
    returns_scrolled hlog (by decide +kernel)
  refine ⟨hret, fun n => ?_, by decide +kernel, by decide +kernel⟩
  by_contra hc
  have hread := readable_of_complete (Room.sorted_run ..) hlog hkey hopen hret
    (Bool.not_eq_false _ ▸ hc)
  exact absurd ((floodedRoom_readable_iff firstOnly).mp hread) (by decide +kernel)

/-- With one entry among the fifty that verifies, scrolling back ends. -/
theorem readable_page_passed :
    ∃ n, (scrolled ⟨[], []⟩ (lit "bob") firstAndMiddle floodedRoom n).log.complete = true ∧
      ∀ s ∈ floodedRoom.store.logOf (lit "m"), s.seq < floodedRoom.bound →
        Kept ⟨[], []⟩ firstAndMiddle
          (scrolled ⟨[], []⟩ (lit "bob") firstAndMiddle floodedRoom n).log s := by
  obtain ⟨hlog, hkey, hopen, -⟩ := floodedRoom_spec
  have hread : Readable firstAndMiddle floodedRoom (lit "m") :=
    (floodedRoom_readable_iff firstAndMiddle).mpr (by decide +kernel)
  have hret : ∀ n, (scrolled ⟨[], []⟩ (lit "bob") firstAndMiddle floodedRoom n).Returns ⟨[], []⟩
      firstAndMiddle :=
    returns_scrolled hlog (by decide +kernel)
  exact (scroll_back_ends_iff ⟨[], []⟩ (lit "bob") _ flooded firstAndMiddle rfl hlog hkey hopen
    hret).2.mpr hread

end Quorum.History
