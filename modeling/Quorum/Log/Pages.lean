import Quorum.Log.Echo

/-!
# Pages in any order

A reader pages through a channel's log backwards, forwards and twice over the same stretch, so the
fold must not care how a set of relay entries was cut into pages, in which order the pages came or
which entries were repeated.  It does not, as long as every entry can be read: the log is then
determined by the set (`Holds`), and so is what it renders.

An entry that cannot be read ends the fold of its page, and what stood behind it in the page is left
out.  So the fold depends on the cut as soon as the set has such an entry and another one
(`orderFree_iff`).
-/

namespace Quorum

open Js

/-! ### Sets of relay entries and ways to fold them -/

/-- An entry of the relay's log, with the verdict on its signature. -/
structure LogEntry where
  seq : ℕ
  entry : Value
  auth : Verdict

def LogEntry.toPage (r : LogEntry) : PageEntry :=
  { seq := some r.seq, entry := r.entry, auth := r.auth }

def LogEntry.item (r : LogEntry) : Item := r.toPage.toItem

/-- A finite set of relay entries. -/
structure LogEntries where
  entries : List LogEntry
  distinct : entries.Pairwise fun a b => a.seq ≠ b.seq

/-- Pages that a set of entries was cut into: every entry is in some page, maybe in several. -/
structure CutFrom (R : LogEntries) (pages : List (List LogEntry)) : Prop where
  mem : ∀ page ∈ pages, ∀ r ∈ page, r ∈ R.entries
  covers : ∀ r ∈ R.entries, ∃ page ∈ pages, r ∈ page

def foldPages (place : Place) (pages : List (List LogEntry)) : ChannelLog :=
  runArrivals place (pages.map fun page => .addEntries (page.map LogEntry.toPage))

/-- No two content entries have one identity, and no two mutations have one. -/
structure Distinguished (place : Place) (R : LogEntries) : Prop where
  lines : ∀ a ∈ R.entries, ∀ b ∈ R.entries, ∀ m m', contentOf place a.item = some m →
    contentOf place b.item = some m' → m.id = m'.id → a = b
  mutations : ∀ a ∈ R.entries, ∀ b ∈ R.entries, ∀ i, a.item.fileId = some i →
    b.item.fileId = some i → a = b

/-- Two logs that read the same: the same cursors, the same line under every identity, and the same
list of lines if no two of them have one timestamp. -/
structure SameReading (log log' : ChannelLog) : Prop where
  oldest : log.oldest = log'.oldest
  newest : log.newest = log'.newest
  shown : ∃ shown shown', replay log = .ok shown ∧ replay log' = .ok shown' ∧
    ∀ id, shown.get? id = shown'.get? id
  lines : ∃ lines lines', renderLog log = .ok lines ∧ renderLog log' = .ok lines' ∧
    ((lines.Pairwise fun a b => a.ts ≠ b.ts) → lines = lines')

/-- Any two ways to fold the set read the same, if the first of them renders at all. -/
def OrderFree (place : Place) (R : LogEntries) : Prop :=
  ∀ pages pages', CutFrom R pages → CutFrom R pages' →
    (renderLog (foldPages place pages)).isOk = true →
    SameReading (foldPages place pages) (foldPages place pages')

/-! ### Cursors -/

/-- The number that an item moves the cursors to. -/
def Item.noted (item : Item) : Option ℕ := if item.considered then item.seq else none

theorem cursors_store (log : ChannelLog) (m : Message) :
    (log.store m).1.newest = log.newest ∧ (log.store m).1.oldest = log.oldest := by
  unfold ChannelLog.store
  dsimp only
  split <;> [split; skip] <;> exact ⟨rfl, rfl⟩

theorem cursors_file (log : ChannelLog) (entry : Value) (id : Str)
    (readable : mutationId entry = .ok id) (seq : Option ℕ) :
    (log.file entry id readable seq).1.newest = log.newest ∧
      (log.file entry id readable seq).1.oldest = log.oldest := by
  unfold ChannelLog.file
  cases seq <;> dsimp only <;> split <;> exact ⟨rfl, rfl⟩

/-- Every item that is looked at moves the cursors, readable or not. -/
theorem cursors_fold1 (place : Place) (log : ChannelLog) (item : Item) :
    (fold1 place log item).newest = (log.noteSeq item.noted).newest ∧
      (fold1 place log item).oldest = (log.noteSeq item.noted).oldest := by
  unfold fold1 addEntry
  split
  next hout =>
    rw [Item.noted, Item.not_considered_iff.mpr hout]
    exact ⟨rfl, rfl⟩
  next hin =>
    rw [Item.noted, if_pos (Item.considered_iff.mpr hin)]
    dsimp only
    split
    next =>
      split
      next => exact ⟨rfl, rfl⟩
      next => exact ⟨rfl, rfl⟩
      next => exact cursors_store ..
    next =>
      split
      next =>
        split
        next => exact ⟨rfl, rfl⟩
        next =>
          split
          next => exact ⟨rfl, rfl⟩
          next => exact cursors_file ..
      next => exact ⟨rfl, rfl⟩

/-- The numbers that some items move the cursors to. -/
def notedSeqs (items : List Item) : Finset ℕ := (items.filterMap Item.noted).toFinset

theorem mem_notedSeqs {items : List Item} {n : ℕ} :
    n ∈ notedSeqs items ↔ ∃ x ∈ items, x.noted = some n := by
  rw [notedSeqs, List.mem_toFinset, List.mem_filterMap]

theorem notedSeqs_cons (item : Item) (items : List Item) :
    notedSeqs (item :: items) =
      match item.noted with
      | none => notedSeqs items
      | some n => insert n (notedSeqs items) := by
  cases h : item.noted with
  | none => rw [notedSeqs, List.filterMap_cons_none h, notedSeqs]
  | some n => rw [notedSeqs, List.filterMap_cons_some h, List.toFinset_cons, notedSeqs]

/-- The newest cursor is the highest number. -/
theorem newest_foldl (place : Place) (items : List Item) (log : ChannelLog) :
    (items.foldl (fold1 place) log).newest = max log.newest ((notedSeqs items).sup id) := by
  induction items generalizing log with
  | nil => simp [notedSeqs]
  | cons item items ih =>
    rw [List.foldl_cons, ih, (cursors_fold1 place log item).1, notedSeqs_cons]
    cases item.noted with
    | none => rfl
    | some n =>
      rw [Finset.sup_insert, ChannelLog.noteSeq]
      exact max_assoc ..

/-- The oldest cursor as a bound: none is above every number. -/
def lowest : Option ℕ → WithTop ℕ
  | none => ⊤
  | some o => o

theorem lowest_injective : Function.Injective lowest := by
  intro a b h
  cases a <;> cases b <;> simp_all [lowest]

/-- The oldest cursor is the lowest number, if there is one. -/
theorem oldest_foldl (place : Place) (items : List Item) (log : ChannelLog) :
    lowest (items.foldl (fold1 place) log).oldest =
      min (lowest log.oldest) (notedSeqs items).min := by
  induction items generalizing log with
  | nil => exact (min_eq_left le_top).symm
  | cons item items ih =>
    rw [List.foldl_cons, ih, (cursors_fold1 place log item).2, notedSeqs_cons]
    cases item.noted with
    | none => rfl
    | some n =>
      have hnote : lowest (log.noteSeq (some n)).oldest = min (lowest log.oldest) n := by
        rw [ChannelLog.noteSeq]
        cases log.oldest with
        | none => exact (min_eq_right le_top).symm
        | some o => exact WithTop.coe_min o n
      rw [hnote, min_assoc]
      exact congrArg _ (Finset.min_insert ..).symm

/-! ### The log of a set of entries -/

/-- A log that holds a set of entries and nothing else. -/
structure Holds (place : Place) (R : LogEntries) (log : ChannelLog) : Prop where
  base : ∀ id m, log.base.get? id = some m ↔
    ∃ r ∈ R.entries, contentOf place r.item = some m ∧ m.id = id
  filed : ∀ i mu, log.mutations.get? i = some mu ↔
    ∃ r ∈ R.entries, mutationOf 0 r.item = some mu ∧ mu.id = i
  newest : log.newest = (notedSeqs (R.entries.map LogEntry.item)).sup id
  oldest : lowest log.oldest = (notedSeqs (R.entries.map LogEntry.item)).min

/-- A numbered mutation is filed under its number whatever comes next. -/
theorem mutationOf_item (r : LogEntry) (next : ℕ) :
    mutationOf next r.item = mutationOf 0 r.item := rfl

section

variable {place : Place} {R : LogEntries} {pages : List (List LogEntry)}

/-- What a fold of pages gets to are entries of the set. -/
theorem CutFrom.mem_folded (h : CutFrom R pages) {x : Item}
    (hx : x ∈ folded place (pages.map fun page => .addEntries (page.map LogEntry.toPage))) :
    ∃ r ∈ R.entries, x = r.item := by
  obtain ⟨a, ha, hx⟩ := List.mem_flatMap.mp hx
  obtain ⟨page, hpage, rfl⟩ := List.mem_map.mp ha
  have hmem : x ∈ (page.map LogEntry.toPage).map PageEntry.toItem := reached_subset place _ hx
  rw [List.map_map] at hmem
  obtain ⟨r, hr, rfl⟩ := List.mem_map.mp hmem
  exact ⟨r, h.mem page hpage r hr, rfl⟩

/-- If every entry can be read, the fold gets to all of them. -/
theorem CutFrom.folded_covers (h : CutFrom R pages)
    (hreads : ∀ r ∈ R.entries, throws place r.item = false) {r : LogEntry} (hr : r ∈ R.entries) :
    r.item ∈ folded place (pages.map fun page => .addEntries (page.map LogEntry.toPage)) := by
  obtain ⟨page, hpage, hmem⟩ := h.covers r hr
  refine List.mem_flatMap.mpr ⟨_, List.mem_map_of_mem hpage, ?_⟩
  have hall : ∀ x ∈ (page.map LogEntry.toPage).map PageEntry.toItem, throws place x = false := by
    intro x hx
    rw [List.map_map] at hx
    obtain ⟨r', hr', rfl⟩ := List.mem_map.mp hx
    exact hreads r' (h.mem page hpage r' hr')
  change r.item ∈ reached place ((page.map LogEntry.toPage).map PageEntry.toItem)
  rw [reached_eq_self hall, List.map_map]
  exact List.mem_map_of_mem hmem

variable {items : List Item}

/-- The line under an identity is the one entry's that has it. -/
theorem base_of_covers (hdist : Distinguished place R)
    (hfrom : ∀ x ∈ items, ∃ r ∈ R.entries, x = r.item)
    (hcovers : ∀ r ∈ R.entries, r.item ∈ items) (id : Str) (m : Message) :
    (after place items).base.get? id = some m ↔
      ∃ r ∈ R.entries, contentOf place r.item = some m ∧ m.id = id := by
  have hcopies : ∀ m' ∈ copies place id items,
      ∃ r ∈ R.entries, contentOf place r.item = some m' ∧ m'.id = id := by
    intro m' hm'
    obtain ⟨x, hx, hc, hid⟩ := mem_copies.mp hm'
    obtain ⟨r, hr, rfl⟩ := hfrom x hx
    exact ⟨r, hr, hc, hid⟩
  refine ⟨fun hget => hcopies m (mem_copies_of_get? hget), ?_⟩
  rintro ⟨r, hr, hm, hid⟩
  refine get?_of_copy (mem_copies.mpr ⟨r.item, hcovers r hr, hm, hid⟩) (isLocal_of_contentOf hm) ?_
  -- every copy of the line is this one
  intro m' hm' _
  obtain ⟨r', hr', hc', hid'⟩ := hcopies m' hm'
  obtain rfl := hdist.lines r' hr' r hr m' m hc' hm (hid'.trans hid.symm)
  exact Option.some.inj (hc'.symm.trans hm)

/-- The mutation under an identity is the one entry's that has it. -/
theorem filed_of_covers (hdist : Distinguished place R)
    (hfrom : ∀ x ∈ items, ∃ r ∈ R.entries, x = r.item)
    (hcovers : ∀ r ∈ R.entries, r.item ∈ items) (i : Str) (mu : Mutation) :
    (after place items).mutations.get? i = some mu ↔
      ∃ r ∈ R.entries, mutationOf 0 r.item = some mu ∧ mu.id = i := by
  cases hf : items.find? (fun x => x.fileId = some i) with
  | none =>
    have hno : ∀ x ∈ items, x.fileId ≠ some i := fun x hx => by
      simpa using List.find?_eq_none.mp hf x hx
    rw [not_filed place hno]
    constructor
    · intro h
      cases h
    · rintro ⟨r, hr, hmu, rfl⟩
      exact absurd (mutationOf_some hmu).2.2 (hno r.item (hcovers r hr))
  | some x =>
    obtain ⟨pre, post, nu, -, -, hnu, hid, -, hget⟩ := filed_first place hf
    obtain ⟨r, hr, rfl⟩ := hfrom x (List.mem_of_find?_eq_some hf)
    have hfile : r.item.fileId = some i := by simpa using List.find?_some hf
    rw [mutationOf_item] at hnu
    rw [hget]
    constructor
    · intro h
      obtain rfl := Option.some.inj h
      exact ⟨r, hr, hnu, hid⟩
    · rintro ⟨r', hr', hmu, hid'⟩
      have hfile' : r'.item.fileId = some i := hid' ▸ (mutationOf_some hmu).2.2
      obtain rfl := hdist.mutations r' hr' r hr i hfile' hfile
      rw [← hnu, hmu]

/-- **A readable set determines its log**, however it was cut. -/
theorem CutFrom.holds (h : CutFrom R pages) (hdist : Distinguished place R)
    (hreads : ∀ r ∈ R.entries, throws place r.item = false) :
    Holds place R (foldPages place pages) := by
  have hseqs : notedSeqs (folded place
      (pages.map fun page => .addEntries (page.map LogEntry.toPage))) =
      notedSeqs (R.entries.map LogEntry.item) := by
    ext n
    rw [mem_notedSeqs, mem_notedSeqs]
    constructor
    · rintro ⟨x, hx, hn⟩
      obtain ⟨r, hr, rfl⟩ := h.mem_folded hx
      exact ⟨r.item, List.mem_map_of_mem hr, hn⟩
    · rintro ⟨x, hx, hn⟩
      obtain ⟨r, hr, rfl⟩ := List.mem_map.mp hx
      exact ⟨r.item, h.folded_covers hreads hr, hn⟩
  rw [foldPages, runArrivals_eq_foldl]
  refine ⟨?_, ?_, ?_, ?_⟩
  · exact base_of_covers hdist (fun _ => h.mem_folded) fun _ => h.folded_covers hreads
  · exact filed_of_covers hdist (fun _ => h.mem_folded) fun _ => h.folded_covers hreads
  · rw [newest_foldl, hseqs]
    exact Nat.zero_max _
  · rw [oldest_foldl, hseqs]
    exact min_eq_right le_top

end

/-! ### What such a log renders -/

/-- A line that is stored has a timestamp that compares. -/
theorem ts_ne_nan_of_contentOf {place : Place} {item : Item} {m : Message}
    (h : contentOf place item = some m) : m.ts ≠ .nan := by
  unfold contentOf at h
  split at h
  next =>
    split at h
    next m₀ hm₀ =>
      obtain rfl := Option.some.inj h
      obtain ⟨sender, -, hm₀⟩ := bind_eq_ok.mp hm₀
      obtain ⟨ts, -, hm₀⟩ := bind_eq_ok.mp hm₀
      split at hm₀
      · cases hm₀
      rename_i hskip
      obtain ⟨reply, -, hm₀⟩ := bind_eq_ok.mp hm₀
      obtain ⟨body, -, hm₀⟩ := bind_eq_ok.mp hm₀
      cases hm₀
      rintro rfl
      exact hskip (.inr rfl)
    next => cases h
  next => cases h

section

variable {place : Place} {R : LogEntries} {log log' : ChannelLog}

theorem Holds.get?_base_eq (h : Holds place R log) (h' : Holds place R log') (id : Str) :
    log.base.get? id = log'.base.get? id :=
  Option.ext fun m => (h.base id m).trans (h'.base id m).symm

/-- The mutations are replayed in the order of their numbers. -/
theorem Holds.ordered_eq (h : Holds place R log) (h' : Holds place R log') :
    log.ordered = log'.ordered := by
  have hvalues : log.mutations.values.Perm log'.mutations.values :=
    Dict.perm_values fun i => Option.ext fun mu => (h.filed i mu).trans (h'.filed i mu).symm
  have hperm : log.ordered.Perm log'.ordered :=
    ((List.perm_insertionSort _ _).trans hvalues).trans (List.perm_insertionSort _ _).symm
  refine @List.Perm.eq_of_pairwise _ (fun mu mu' => mu.seq ≤ mu'.seq) _ _ ?_
    (List.pairwise_insertionSort _ _) (List.pairwise_insertionSort _ _) hperm
  intro mu mu' hmu hmu' hle hge
  obtain ⟨i, hmu⟩ := mem_ordered.mp hmu
  obtain ⟨j, hmu'⟩ := mem_ordered.mp hmu'
  obtain ⟨r, hr, hr₀, -⟩ := (h.filed i mu).mp hmu
  obtain ⟨r', hr', hr₀', -⟩ := (h'.filed j mu').mp hmu'
  have hseq : r.seq = r'.seq := by
    have hr₁ : mu.seq = r.seq := (mutationOf_some hr₀).2.1
    have hr₁' : mu'.seq = r'.seq := (mutationOf_some hr₀').2.1
    omega
  have : Std.Symm fun a b : LogEntry => a.seq ≠ b.seq := ⟨fun _ _ => Ne.symm⟩
  obtain rfl : r = r' := by
    by_contra hne
    exact R.distinct.forall hr hr' hne hseq
  exact Option.some.inj (hr₀.symm.trans hr₀')

/-- A replay changes no timestamp. -/
theorem ts_ne_nan_of_replay (hbase : ∀ id m, log.base.get? id = some m → m.ts ≠ .nan)
    {shown : Dict Str Message} (hs : replay log = .ok shown) {m : Message}
    (hm : m ∈ shown.values) : m.ts ≠ .nan := by
  obtain ⟨id, hget⟩ := Dict.mem_values_iff.mp hm
  obtain ⟨m₀, hm₀, hline⟩ := replay_line_inv hs hget
  rw [(same_replayLine hline).2.2]
  exact hbase id m₀ hm₀

theorem Holds.ts_ne_nan (h : Holds place R log) {shown : Dict Str Message}
    (hs : replay log = .ok shown) {m : Message} (hm : m ∈ shown.values) : m.ts ≠ .nan := by
  refine ts_ne_nan_of_replay (fun id m₀ hm₀ => ?_) hs hm
  obtain ⟨r, -, hc, -⟩ := (h.base id m₀).mp hm₀
  exact ts_ne_nan_of_contentOf hc

/-- Rendering sorts the lines by where their timestamps stand. -/
theorem sort_by_rank {l : List Message} (hl : ∀ m ∈ l, m.ts ≠ .nan) :
    l.insertionSort (fun a b => a.ts.cmpSub b.ts ≠ .gt) =
      l.insertionSort fun a b => a.ts.rank ≤ b.ts.rank := by
  have hmap := List.map_insertionSort (fun a b : Message => a.ts.cmpSub b.ts ≠ .gt)
    (fun a b : Message => a.ts.rank ≤ b.ts.rank) id l
    fun a ha b hb => Number.cmpSub_ne_gt_iff (hl a ha) (hl b hb)
  rwa [List.map_id, List.map_id] at hmap

theorem Holds.sorted (h : Holds place R log) {shown : Dict Str Message}
    (hs : replay log = .ok shown) :
    shown.values.insertionSort (fun a b => a.ts.cmpSub b.ts ≠ .gt) =
      shown.values.insertionSort fun a b => a.ts.rank ≤ b.ts.rank :=
  sort_by_rank fun _ hm => h.ts_ne_nan hs hm

instance : Std.Total fun a b : Message => a.ts.rank ≤ b.ts.rank :=
  ⟨fun a b => le_total a.ts.rank b.ts.rank⟩

instance : IsTrans Message fun a b => a.ts.rank ≤ b.ts.rank := ⟨fun _ _ _ => le_trans⟩

/-- **Logs that hold one set read the same.** -/
theorem Holds.sameReading (h : Holds place R log) (h' : Holds place R log')
    (hok : (renderLog log).isOk = true) : SameReading log log' := by
  obtain ⟨lines, hl⟩ := isOk_iff.mp hok
  obtain ⟨shown, hs, rfl⟩ := renderLog_eq_ok.mp hl
  have hreplayed : log.replayed = log'.replayed := by
    rw [ChannelLog.replayed, ChannelLog.replayed, h.ordered_eq h']
  have hbase := h.get?_base_eq h'
  have hreplay := (foldlM_applyMutation_ok_iff log.replayed log.base).mp ⟨shown, replay_eq log ▸ hs⟩
  obtain ⟨shown', hs'⟩ := (foldlM_applyMutation_ok_iff log'.replayed log'.base).mpr
    ⟨hreplayed ▸ hreplay.1, fun id m hm => hreplayed ▸ hreplay.2 id m ((hbase id).trans hm)⟩
  rw [← replay_eq] at hs'
  have hshown : ∀ id, shown.get? id = shown'.get? id := fun id =>
    shown_eq hs hs' (hbase id) fun m => by rw [hreplayed]
  refine ⟨lowest_injective (h.oldest.trans h'.oldest.symm), h.newest.trans h'.newest.symm,
    ⟨shown, shown', hs, hs', hshown⟩, _, _, hl, renderLog_eq_ok.mpr ⟨shown', hs', rfl⟩, ?_⟩
  rw [h.sorted hs, h'.sorted hs']
  intro hdistinct
  have hvalues := Dict.perm_values hshown
  have hperm := ((List.perm_insertionSort (fun a b : Message => a.ts.rank ≤ b.ts.rank) _).trans
    hvalues).trans (List.perm_insertionSort (fun a b : Message => a.ts.rank ≤ b.ts.rank) _).symm
  refine @List.Perm.eq_of_pairwise _ (fun a b : Message => a.ts.rank ≤ b.ts.rank) _ _ ?_
    (List.pairwise_insertionSort _ _) (List.pairwise_insertionSort _ _) hperm
  intro a b ha hb hle hge
  have hb := hperm.mem_iff.mpr hb
  have hts : a.ts = b.ts := Number.eq_of_rank_eq
    (h.ts_ne_nan hs ((List.mem_insertionSort _).mp ha))
    (h.ts_ne_nan hs ((List.mem_insertionSort _).mp hb)) (le_antisymm hle hge)
  have : Std.Symm fun a b : Message => a.ts ≠ b.ts := ⟨fun _ _ => Ne.symm⟩
  by_contra hne
  exact hdistinct.forall ha hb hne hts

end

/-! ### Entries that cannot be read -/

/-- An item that throws has moved the cursors, and nothing else. -/
theorem fold1_of_throws {place : Place} {item : Item} (h : throws place item = true)
    (log : ChannelLog) : fold1 place log item = log.noteSeq item.noted := by
  have hthrows := (throws_eq place log item).symm.trans h
  unfold fold1 addEntry at *
  split at hthrows
  next => cases hthrows
  next hin =>
    rw [if_neg hin, Item.noted, if_pos (Item.considered_iff.mpr hin)]
    dsimp only at hthrows ⊢
    split at hthrows
    next hkind =>
      rw [if_pos hkind]
      split at hthrows
      next => rfl
      next => cases hthrows
      next => cases hthrows
    next hkind =>
      rw [if_neg hkind]
      split at hthrows
      next hkind' =>
        rw [if_pos hkind']
        split at hthrows
        next => cases hthrows
        next hauth =>
          rw [if_neg hauth]
          split at hthrows
          next => rfl
          next => cases hthrows
      next => cases hthrows

theorem considered_of_throws {place : Place} {item : Item} (h : throws place item = true) :
    item.considered = true := by
  rw [throws, Bool.or_eq_true, Bool.and_eq_true, Bool.and_eq_true, Item.isContent, Item.isMutation,
    Bool.and_eq_true, Bool.and_eq_true, Bool.and_eq_true] at h
  rcases h with ⟨⟨hcons, -⟩, -⟩ | ⟨⟨⟨hcons, -⟩, -⟩, -⟩ <;> exact hcons

/-- An item that is not looked at does nothing. -/
theorem fold1_of_not_considered {place : Place} {item : Item} (h : item.considered = false)
    (log : ChannelLog) : fold1 place log item = log := by
  rw [fold1, addEntry, if_pos (Item.not_considered_iff.mp h)]

theorem noteSeq_noteSeq (log : ChannelLog) (n : ℕ) :
    (log.noteSeq (some n)).noteSeq (some n) = log.noteSeq (some n) := by
  cases log with
  | mk base mutations oldest complete newest localSeq =>
    cases oldest <;> simp [ChannelLog.noteSeq]

theorem SameReading.refl {log : ChannelLog} (h : (renderLog log).isOk = true) :
    SameReading log log := by
  obtain ⟨lines, hl⟩ := isOk_iff.mp h
  obtain ⟨shown, hs, -⟩ := renderLog_eq_ok.mp hl
  exact ⟨rfl, rfl, ⟨shown, shown, hs, hs, fun _ => rfl⟩, lines, lines, hl, hl, fun _ => rfl⟩

section

variable {place : Place} {R : LogEntries} {t : LogEntry}

/-- The log of a set whose one entry that counts cannot be read. -/
theorem foldPages_of_only (ht : t ∈ R.entries) (hthrows : throws place t.item = true)
    (honly : ∀ r ∈ R.entries, r.item.considered = true → r = t) {pages : List (List LogEntry)}
    (h : CutFrom R pages) : foldPages place pages = createChannelLog.noteSeq (some t.seq) := by
  have hnoted : t.item.noted = some t.seq := by
    rw [Item.noted, considered_of_throws hthrows]
    rfl
  have hskip : ∀ r ∈ R.entries, r ≠ t → r.item.considered = false := fun r hr hne => by
    rw [← Bool.not_eq_true]
    exact fun hc => hne (honly r hr hc)
  -- One item either does nothing or is the entry.
  have hstep : ∀ x, (∃ r ∈ R.entries, x = r.item) → ∀ log,
      fold1 place log x = log ∧ x ≠ t.item ∨
        fold1 place log x = log.noteSeq (some t.seq) ∧ x = t.item := by
    rintro x ⟨r, hr, rfl⟩ log
    by_cases hc : r.item.considered = true
    · obtain rfl := honly r hr hc
      exact .inr ⟨by rw [fold1_of_throws hthrows, hnoted], rfl⟩
    · refine .inl ⟨fold1_of_not_considered (by simpa using hc) log, fun he => hc ?_⟩
      rw [he]
      exact considered_of_throws hthrows
  have hfold : ∀ items : List Item, (∀ x ∈ items, ∃ r ∈ R.entries, x = r.item) → ∀ log,
      (t.item ∈ items ∨ log.noteSeq (some t.seq) = log) →
      items.foldl (fold1 place) log = log.noteSeq (some t.seq) := by
    intro items
    induction items with
    | nil =>
      rintro - log (hmem | hlog)
      · cases hmem
      · exact hlog.symm
    | cons x items ih =>
      intro hfrom log hlog
      have hrest := fun y hy => hfrom y (List.mem_cons_of_mem _ hy)
      rw [List.foldl_cons]
      rcases hstep x (hfrom x (List.mem_cons_self ..)) log with ⟨hx, hne⟩ | ⟨hx, -⟩
      · rw [hx]
        refine ih hrest log (hlog.imp_left fun hmem => ?_)
        exact (List.mem_cons.mp hmem).resolve_left (Ne.symm hne)
      · rw [hx, ih hrest _ (.inr (noteSeq_noteSeq ..)), noteSeq_noteSeq]
  rw [foldPages, runArrivals_eq_foldl]
  refine hfold _ (fun _ => h.mem_folded) _ (.inl ?_)
  -- Nothing before the entry ends the fold of its page.
  obtain ⟨page, hpage, hmem⟩ := h.covers t ht
  refine List.mem_flatMap.mpr ⟨_, List.mem_map_of_mem hpage, ?_⟩
  have hpageMem := h.mem page hpage
  change t.item ∈ reached place ((page.map LogEntry.toPage).map PageEntry.toItem)
  rw [List.map_map]
  clear hpage h
  induction page with
  | nil => cases hmem
  | cons r page ih =>
    rw [List.map_cons, reached]
    by_cases hr : r = t
    · subst hr
      exact List.mem_cons_self ..
    · have hno : throws place r.item = false := by
        rw [← Bool.not_eq_true]
        intro hthr
        exact hr (honly r (hpageMem r (List.mem_cons_self ..)) (considered_of_throws hthr))
      refine List.mem_cons_of_mem _ ?_
      have hno' : throws place ((PageEntry.toItem ∘ LogEntry.toPage) r) = false := hno
      rw [hno', if_neg Bool.false_ne_true]
      exact ih ((List.mem_cons.mp hmem).resolve_left (Ne.symm hr))
        fun r' hr' => hpageMem r' (List.mem_cons_of_mem _ hr')

/-- A page that begins with an entry that cannot be read brings nothing else. -/
theorem foldPages_front (hthrows : throws place t.item = true) (pages : List (List LogEntry))
    (page : List LogEntry) :
    foldPages place (pages ++ [t :: page]) = (foldPages place pages).noteSeq (some t.seq) := by
  have hnoted : t.item.noted = some t.seq := by
    rw [Item.noted, considered_of_throws hthrows]
    rfl
  have hreached : reached place (((t :: page).map LogEntry.toPage).map PageEntry.toItem) =
      [t.item] := by
    rw [List.map_cons, List.map_cons, reached]
    change t.item :: (if throws place t.item = true then [] else _) = _
    rw [if_pos hthrows]
  rw [foldPages, foldPages, List.map_append, runArrivals, List.foldl_append, runArrivals,
    List.map_singleton, List.foldl_cons, List.foldl_nil, apply_eq_foldl]
  change (reached place (((t :: page).map LogEntry.toPage).map PageEntry.toItem)).foldl _ _ = _
  rw [hreached, List.foldl_cons, List.foldl_nil, fold1_of_throws hthrows, hnoted]

end

/-! ### When the fold is free of the order -/

/-- **Page order.**  How a set of entries was cut into pages, in which order they came and what was
repeated shows nowhere, exactly when every entry can be read or only one is looked at. -/
theorem orderFree_iff (place : Place) (R : LogEntries) (hdist : Distinguished place R) :
    OrderFree place R ↔
      (∀ r ∈ R.entries, throws place r.item = false) ∨
        ∀ a ∈ R.entries, ∀ b ∈ R.entries, a.item.considered = true → b.item.considered = true →
          a = b := by
  by_cases hreads : ∀ r ∈ R.entries, throws place r.item = false
  · refine iff_of_true (fun pages pages' h h' hok => ?_) (.inl hreads)
    exact (h.holds hdist hreads).sameReading (h'.holds hdist hreads) hok
  · obtain ⟨t, ht, hthrows⟩ : ∃ t ∈ R.entries, throws place t.item = true := by
      simpa using hreads
    have hcons := considered_of_throws hthrows
    constructor
    · intro hfree
      refine .inr fun a ha b hb hac hbc => ?_
      -- Any other entry is lost behind `t`, or kept by a page of its own.
      have hsame : ∀ e ∈ R.entries, e.item.considered = true → e = t := by
        intro e he hec
        have hcut : CutFrom R [t :: R.entries] := by
          refine ⟨fun page hpage r hr => ?_, fun r hr => ⟨_, List.mem_singleton.mpr rfl,
            List.mem_cons_of_mem _ hr⟩⟩
          obtain rfl := List.mem_singleton.mp hpage
          rcases List.mem_cons.mp hr with rfl | hr
          · exact ht
          · exact hr
        have hcut' : CutFrom R [[e], t :: R.entries] := by
          refine ⟨List.forall_mem_cons.mpr ⟨fun r hr => ?_, hcut.mem⟩, fun r hr => ?_⟩
          · rwa [List.mem_singleton.mp hr]
          · obtain ⟨page, hpage, hmem⟩ := hcut.covers r hr
            exact ⟨page, List.mem_cons_of_mem _ hpage, hmem⟩
        have hone : foldPages place [t :: R.entries] = createChannelLog.noteSeq (some t.seq) :=
          foldPages_front hthrows [] R.entries
        have htwo : foldPages place [[e], t :: R.entries] =
            (foldPages place [[e]]).noteSeq (some t.seq) :=
          foldPages_front hthrows [[e]] R.entries
        have hfirst : foldPages place [[e]] = fold1 place createChannelLog e.item := by
          rw [foldPages, runArrivals_eq_foldl]
          change ((reached place [e.item]) ++ []).foldl _ _ = _
          rw [reached, reached, ite_self]
          rfl
        have hnoted : e.item.noted = some e.seq := by
          rw [Item.noted, hec]
          rfl
        have hread := hfree _ _ hcut hcut' (by rw [hone]; rfl)
        rw [hone, htwo, hfirst] at hread
        obtain ⟨hnewest, holdest⟩ := cursors_fold1 place createChannelLog e.item
        rw [hnoted] at hnewest holdest
        have hnew : t.seq = max e.seq t.seq := by
          have h := hread.newest
          simp only [ChannelLog.noteSeq] at h
          rw [hnewest] at h
          simpa [ChannelLog.noteSeq, createChannelLog] using h
        have hold : t.seq = min e.seq t.seq := by
          have h := hread.oldest
          simp only [ChannelLog.noteSeq] at h
          rw [holdest] at h
          simpa [ChannelLog.noteSeq, createChannelLog] using h
        have hseq : e.seq = t.seq := by omega
        have : Std.Symm fun a b : LogEntry => a.seq ≠ b.seq := ⟨fun _ _ => Ne.symm⟩
        by_contra hne
        exact R.distinct.forall he ht hne hseq
      rw [hsame a ha hac, hsame b hb hbc]
    · rintro (hall | honly)
      · exact absurd hall hreads
      · have honly : ∀ r ∈ R.entries, r.item.considered = true → r = t := fun r hr hc =>
          honly r hr t ht hc hcons
        intro pages pages' h h' hok
        rw [foldPages_of_only ht hthrows honly h] at hok ⊢
        rw [foldPages_of_only ht hthrows honly h']
        exact .refl hok

/-- A line whose text does not convert to a string. -/
def unreadableLine : LogEntry where
  seq := 1
  entry := .obj 3 [(lit "k", .str (lit "chat")), (lit "sender", .str (lit "mallory")),
    (lit "ts", .num (.ofRat 4)), (lit "text", .obj 4 [(lit "toString", .num (.ofRat 1))])]
  auth := .signed

def readableLine : LogEntry where
  seq := 2
  entry := chatEntry (lit "alice") (.ofRat 5) (lit "hello")
  auth := .signed

def oneUnreadable : LogEntries where
  entries := [unreadableLine, readableLine]
  distinct := by simp [unreadableLine, readableLine]

/-- In one page with the unreadable line the other line is lost; in a page of its own it shows. -/
theorem unreadable_line_hides_page :
    CutFrom oneUnreadable [[unreadableLine, readableLine]] ∧
      CutFrom oneUnreadable [[unreadableLine], [readableLine]] ∧
      Distinguished ⟨[], []⟩ oneUnreadable ∧
      texts (foldPages ⟨[], []⟩ [[unreadableLine, readableLine]]) = some [] ∧
      texts (foldPages ⟨[], []⟩ [[unreadableLine], [readableLine]]) = some [some (lit "hello")] := by
  have hcontent : ∀ r ∈ oneUnreadable.entries, (contentOf ⟨[], []⟩ r.item).isSome = true →
      r.seq = 2 := by decide +kernel
  have hfiled : ∀ r ∈ oneUnreadable.entries, r.item.fileId.isSome = false := by decide +kernel
  have hseq : ∀ a ∈ oneUnreadable.entries, ∀ b ∈ oneUnreadable.entries, a.seq = b.seq → a = b := by
    simp [oneUnreadable, unreadableLine, readableLine]
  refine ⟨⟨?_, ?_⟩, ⟨?_, ?_⟩, ⟨?_, ?_⟩, by decide +kernel, by decide +kernel⟩
  · simp [oneUnreadable]
  · simp [oneUnreadable]
  · simp [oneUnreadable]
  · simp [oneUnreadable]
  · intro a ha b hb m m' hm hm' _
    exact hseq a ha b hb
      ((hcontent a ha (by simp [hm])).trans (hcontent b hb (by simp [hm'])).symm)
  · intro a ha b hb i hi _
    have hnone := hfiled a ha
    rw [hi] at hnone
    cases hnone

def lineAndEdit : LogEntries where
  entries :=
    [⟨1, chatEntry (lit "alice") (.ofRat 5) (lit "draft"), .signed⟩,
      ⟨2, editEntry (lit "alice") (.ofRat 6) (.ofRat 5) (lit "final"), .signed⟩]
  distinct := by simp

/-- The edit lands wherever it is folded, also before the line. -/
theorem edit_lands_in_any_order : OrderFree ⟨[], []⟩ lineAndEdit := by
  have hchat : ∀ r ∈ lineAndEdit.entries, (contentOf ⟨[], []⟩ r.item).isSome = true →
      r.seq = 1 := by decide +kernel
  have hedit : ∀ r ∈ lineAndEdit.entries, r.item.fileId.isSome = true → r.seq = 2 := by
    decide +kernel
  have hseq : ∀ a ∈ lineAndEdit.entries, ∀ b ∈ lineAndEdit.entries, a.seq = b.seq → a = b := by
    simp [lineAndEdit]
  refine (orderFree_iff ⟨[], []⟩ lineAndEdit ⟨?_, ?_⟩).mpr (.inl (by decide +kernel))
  · intro a ha b hb m m' hm hm' _
    exact hseq a ha b hb ((hchat a ha (by simp [hm])).trans (hchat b hb (by simp [hm'])).symm)
  · intro a ha b hb i hi hi'
    exact hseq a ha b hb ((hedit a ha (by simp [hi])).trans (hedit b hb (by simp [hi'])).symm)

end Quorum
