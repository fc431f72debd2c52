import Quorum.Log.Reactions

/-!
# Local echoes and the relay's reading

A device folds entries it wrote or received live before the relay has numbered them, and the
relay's copies of the same entries later.  A line's echo gives way to the relay's copy.  A
mutation's echo does not: it keeps the provisional order number it was filed with.  So a device
converges to the reading of one that folded only pages as long as its echoes came in an order that
the provisional numbers reproduce (`Orderly`), and the relay log does not use an identity twice
(`Unambiguous`).

The proof goes through what both devices then have in common: each `Mirrors` the relay log, and two
logs that mirror one relay log show the same lines.
-/

namespace Quorum

open Js

/-! ### The relay's log and a device that folds it -/

/-- A signed entry and the number the relay gave it. -/
structure Relayed where
  seq : ℕ
  entry : Value

def Relayed.toPage (r : Relayed) : PageEntry :=
  { seq := some r.seq, entry := r.entry, auth := .signed }

def Relayed.item (r : Relayed) : Item := r.toPage.toItem

/-- A relay log of signed entries, numbered in increasing order. -/
structure RelayLog where
  entries : List Relayed
  increasing : entries.Pairwise fun a b => a.seq < b.seq

/-- Arrivals that are pages of a relay log and local copies of its entries. -/
def FoldsFrom (R : RelayLog) (arrivals : List Arrival) : Prop :=
  ∀ a ∈ arrivals, match a with
    | .addEntries page => ∀ e ∈ page, ∃ r ∈ R.entries, e = r.toPage
    | .addLocalEntry entry => ∃ r ∈ R.entries, entry = r.entry

/-- Every entry of the relay log has been folded from a page. -/
def Covers (place : Place) (R : RelayLog) (arrivals : List Arrival) : Prop :=
  ∀ r ∈ R.entries, r.item ∈ folded place arrivals

/-- A device that folds nothing but pages. -/
def PagesOnly (arrivals : List Arrival) : Prop := ∀ a ∈ arrivals, ∃ page, a = .addEntries page

/-- The identity a mutation is filed under. -/
def Item.fileId (x : Item) : Option Str := (mutationOf 0 x).map Mutation.id

/-- No two entries of the relay log are content with one identity or mutations with one. -/
structure Unambiguous (place : Place) (R : RelayLog) : Prop where
  lines : ∀ a ∈ R.entries, ∀ b ∈ R.entries, ∀ m m', contentOf place a.item = some m →
    contentOf place b.item = some m' → m.id = m'.id → a = b
  mutations : ∀ a ∈ R.entries, ∀ b ∈ R.entries, ∀ i, a.item.fileId = some i →
    b.item.fileId = some i → a = b

/-- The place of the first copy of a mutation among some items. -/
def firstAt (items : List Item) (i : Str) : ℕ := items.findIdx fun x => x.fileId = some i

/-- Whether the first copy of a mutation is an echo. -/
def echoFirst (items : List Item) (i : Str) : Bool :=
  (items.find? fun x => x.fileId = some i).any Item.isLocal

/-- Two mutations of one line, the first of which the relay numbered before the second. -/
def Precedes (a b : Relayed) (i j : Str) : Prop :=
  a.seq < b.seq ∧ a.item.fileId = some i ∧ b.item.fileId = some j ∧
    ∃ id, target a.entry = .ok (some id) ∧ target b.entry = .ok (some id)

/-- Of two mutations of one line, if the earlier was first seen as an echo, then so was the later,
and after it. -/
def Orderly (R : RelayLog) (items : List Item) : Prop :=
  ∀ a ∈ R.entries, ∀ b ∈ R.entries, ∀ i j, Precedes a b i j → echoFirst items i = true →
    echoFirst items j = true ∧ firstAt items i < firstAt items j

/-! ### Filing mutations -/

variable {x : Item} {i : Str} {mu : Mutation} {place : Place} {items : List Item} {R : RelayLog}

theorem mutationOf_eq (hm : x.isMutation = true) (hid : mutationId x.entry = .ok i) (next : ℕ) :
    mutationOf next x =
      some { seq := x.seq.getD next, entry := x.entry, id := i, readable := hid } := by
  rw [mutationOf, if_pos hm]
  split
  next j hj =>
    obtain rfl := Except.ok.inj (hid.symm.trans hj)
    rfl
  next e he =>
    rw [hid] at he
    cases he

theorem fileId_eq_some_iff :
    x.fileId = some i ↔ x.isMutation = true ∧ mutationId x.entry = .ok i := by
  constructor
  · intro h
    obtain ⟨mu, hmu, rfl⟩ := Option.map_eq_some_iff.mp h
    exact ⟨isMutation_of_mutationOf hmu, entry_of_mutationOf hmu ▸ mu.readable⟩
  · rintro ⟨hm, hid⟩
    rw [Item.fileId, mutationOf_eq hm hid]
    rfl

/-- Copies of one verified entry are filed under one identity. -/
theorem fileId_congr {y : Item} (hentry : x.entry = y.entry) (hauth : x.auth = y.auth) :
    x.fileId = y.fileId := by
  refine Option.ext fun i => ?_
  rw [fileId_eq_some_iff, fileId_eq_some_iff, Item.isMutation, Item.isMutation, Item.considered,
    Item.considered, hentry, hauth]

theorem mutationOf_some {next : ℕ} (h : mutationOf next x = some mu) :
    mu.entry = x.entry ∧ mu.seq = x.seq.getD next ∧ x.fileId = some mu.id := by
  have hm := isMutation_of_mutationOf h
  have hid : mutationId x.entry = .ok mu.id := entry_of_mutationOf h ▸ mu.readable
  refine ⟨(entry_of_mutationOf h).symm, ?_, fileId_eq_some_iff.mpr ⟨hm, hid⟩⟩
  rw [mutationOf_eq hm hid] at h
  rw [← Option.some.inj h]

theorem exists_mutationOf (h : x.fileId = some i) (next : ℕ) :
    ∃ mu, mutationOf next x = some mu ∧ mu.id = i := by
  obtain ⟨hm, hid⟩ := fileId_eq_some_iff.mp h
  exact ⟨_, mutationOf_eq hm hid next, rfl⟩

theorem mutationOf_eq_none {m : Message} (h : contentOf place x = some m)
    (next : ℕ) : mutationOf next x = none := by
  cases hm : mutationOf next x with
  | none => rfl
  | some mu =>
    rw [contentOf_eq_none hm] at h
    cases h

/-- The mutation under an identity after one item: the one that was there, or else the item's. -/
theorem fold1_filed (place : Place) (log : ChannelLog) (x : Item) (i : Str) :
    (fold1 place log x).mutations.get? i =
      (log.mutations.get? i).or ((mutationOf log.localSeq x).filter fun mu => mu.id = i) := by
  cases hc : contentOf place x with
  | some m =>
    rw [fold1_of_content hc, mutationOf_eq_none hc]
    simp
  | none =>
    cases hm : mutationOf log.localSeq x with
    | none =>
      rw [(fold1_of_neither hc hm).2.1]
      simp
    | some mu =>
      rw [(fold1_of_mutation place hm).2.1, fileNew]
      cases hhas : log.mutations.has mu.id with
      | true =>
        rw [if_pos rfl, Option.filter_some]
        split
        next hid =>
          obtain rfl : mu.id = i := by simpa using hid
          rw [Dict.has_eq_isSome, Option.isSome_iff_exists] at hhas
          obtain ⟨mu', hmu'⟩ := hhas
          rw [hmu']
          rfl
        next => simp
      | false =>
        have hnone : log.mutations.get? mu.id = none := (Dict.get?_eq_none_iff _ _).mpr hhas
        rw [if_neg Bool.false_ne_true, Dict.get?_set, Option.filter_some]
        by_cases hid : mu.id = i
        · subst hid
          simp [hnone]
        · simp [hid]

theorem localSeq_le_fold1 (place : Place) (log : ChannelLog) (x : Item) :
    log.localSeq ≤ (fold1 place log x).localSeq := by
  cases hc : contentOf place x with
  | some m =>
    rw [fold1_of_content hc]
    simp
  | none =>
    cases hm : mutationOf log.localSeq x with
    | none => exact (fold1_of_neither hc hm).2.2.ge
    | some mu =>
      rw [(fold1_of_mutation place hm).2.2]
      split <;> omega

/-- The log after some items. -/
def after (place : Place) (items : List Item) : ChannelLog :=
  items.foldl (fold1 place) createChannelLog

theorem after_append (place : Place) (pre post : List Item) :
    after place (pre ++ post) = post.foldl (fold1 place) (after place pre) :=
  List.foldl_append ..

theorem localSeq_le_foldl (place : Place) (items : List Item) (log : ChannelLog) :
    log.localSeq ≤ (items.foldl (fold1 place) log).localSeq := by
  induction items generalizing log with
  | nil => exact Nat.le_refl _
  | cons x items ih => exact (localSeq_le_fold1 place log x).trans (ih _)

/-- What is filed stays. -/
theorem foldl_filed {log : ChannelLog} (h : log.mutations.get? i = some mu) (items : List Item) :
    (items.foldl (fold1 place) log).mutations.get? i = some mu := by
  induction items generalizing log with
  | nil => exact h
  | cons x items ih =>
    apply ih
    rw [fold1_filed, h]
    rfl

theorem not_filed (place : Place)
    (h : ∀ x ∈ items, x.fileId ≠ some i) : (after place items).mutations.get? i = none := by
  have key : ∀ log : ChannelLog, log.mutations.get? i = none →
      (items.foldl (fold1 place) log).mutations.get? i = none := by
    induction items with
    | nil => exact fun _ h => h
    | cons x items ih =>
      intro log hlog
      refine ih (fun y hy => h y (List.mem_cons_of_mem _ hy)) _ ?_
      rw [fold1_filed, hlog, Option.none_or]
      cases hm : mutationOf log.localSeq x with
      | none => rfl
      | some mu =>
        have hne : mu.id ≠ i := fun e =>
          h x (List.mem_cons_self ..) (e ▸ (mutationOf_some hm).2.2)
        simp [hne]
  exact key _ (by simp [createChannelLog])

/-- **The first copy decides.**  A mutation is filed as its first copy has it, with the order
number that was next at that moment if the relay had not numbered it. -/
theorem filed_first (place : Place) (h : items.find? (fun x => x.fileId = some i) = some x) :
    ∃ pre post mu, items = pre ++ x :: post ∧ firstAt items i = pre.length ∧
      mutationOf (after place pre).localSeq x = some mu ∧ mu.id = i ∧
      (after place pre).mutations.get? i = none ∧
      (after place items).mutations.get? i = some mu := by
  obtain ⟨hx, pre, post, rfl, hpre⟩ := List.find?_eq_some_iff_append.mp h
  have hx : x.fileId = some i := by simpa using hx
  have hpre : ∀ y ∈ pre, y.fileId ≠ some i := fun y hy => by simpa using hpre y hy
  obtain ⟨mu, hmu, hid⟩ := exists_mutationOf hx (after place pre).localSeq
  have hnone := not_filed place hpre
  refine ⟨pre, post, mu, rfl, ?_, hmu, hid, hnone, ?_⟩
  · rw [firstAt, List.findIdx_append, List.findIdx_eq_length_of_false, List.findIdx_cons]
    · simp [hx]
    · simpa using hpre
  · rw [after_append, List.foldl_cons]
    apply foldl_filed
    rw [fold1_filed, hnone, hmu]
    simp [hid]

/-- An echo that is filed takes an order number below every later one. -/
theorem localSeq_lt_of_echo {pre : List Item}
    (hmu : mutationOf (after place pre).localSeq x = some mu) (hseq : x.seq = none)
    (hnew : (after place pre).mutations.get? mu.id = none) (mid : List Item) :
    (after place pre).localSeq < (after place (pre ++ x :: mid)).localSeq := by
  rw [after_append, List.foldl_cons]
  refine Nat.lt_of_lt_of_le ?_ (localSeq_le_foldl place mid _)
  rw [(fold1_of_mutation place hmu).2.2, if_pos ⟨hseq, (Dict.get?_eq_none_iff _ _).mp hnew⟩]
  exact Nat.lt_succ_self _

/-- Of two ways to cut one list, the shorter front is part of the longer. -/
theorem exists_mid_of_length_lt {pre pre' post post' : List Item} {y : Item}
    (h : pre ++ x :: post = pre' ++ y :: post') (hlen : pre.length < pre'.length) :
    ∃ mid, pre' = pre ++ x :: mid := by
  rcases List.append_eq_append_iff.mp h with ⟨rest, rfl, hrest⟩ | ⟨rest, rfl, -⟩
  · cases rest with
    | nil =>
      rw [List.append_nil] at hlen
      exact absurd hlen (Nat.lt_irrefl _)
    | cons z rest =>
      obtain ⟨rfl, -⟩ := List.cons.inj hrest
      exact ⟨rest, rfl⟩
  · rw [List.length_append] at hlen
    omega

/-! ### What a device has folded -/

/-- Items that are all copies of entries of a relay log. -/
def FoldedFrom (R : RelayLog) (items : List Item) : Prop :=
  ∀ x ∈ items, ∃ r ∈ R.entries, x = r.item ∨ x = echoItem r.entry

theorem foldedFrom {arrivals : List Arrival}
    (h : FoldsFrom R arrivals) : FoldedFrom R (folded place arrivals) := by
  intro x hx
  obtain ⟨a, ha, hx⟩ := List.mem_flatMap.mp hx
  have hmem := reached_subset place _ hx
  have hfrom := h a ha
  cases a with
  | addEntries page =>
    obtain ⟨e, he, rfl⟩ := List.mem_map.mp hmem
    obtain ⟨r, hr, rfl⟩ := hfrom e he
    exact ⟨r, hr, .inl rfl⟩
  | addLocalEntry entry =>
    obtain ⟨r, hr, rfl⟩ := hfrom
    exact ⟨r, hr, .inr (List.mem_singleton.mp hmem)⟩

/-- What the copies of the entries of a relay log are filed under. -/
theorem FoldedFrom.fileId (h : FoldedFrom R items) (hx : x ∈ items) (hid : x.fileId = some i) :
    ∃ r ∈ R.entries, r.item.fileId = some i ∧ x.entry = r.entry ∧
      (x = r.item ∨ x = echoItem r.entry) := by
  obtain ⟨r, hr, hcase⟩ := h x hx
  refine ⟨r, hr, ?_, ?_, hcase⟩
  · rcases hcase with rfl | rfl
    · exact hid
    · rw [← hid]
      exact fileId_congr rfl rfl
  · rcases hcase with rfl | rfl <;> rfl

/-- **Order numbers follow the relay.**  On an orderly device, of two mutations of one line the one
the relay numbered first has the lower order number. -/
theorem seq_lt_of_precedes (hfrom : FoldedFrom R items) (hunique : Unambiguous place R)
    (hlow : ∀ r ∈ R.entries, r.seq < createChannelLog.localSeq) (horderly : Orderly R items)
    {a b : Relayed} (ha : a ∈ R.entries) (hb : b ∈ R.entries) {j : Str}
    (hprec : Precedes a b i j) {mu' : Mutation}
    (hmu : (after place items).mutations.get? i = some mu)
    (hmu' : (after place items).mutations.get? j = some mu') : mu.seq < mu'.seq := by
  have hfind : ∀ {k : Str} {nu : Mutation}, (after place items).mutations.get? k = some nu →
      ∃ x, items.find? (fun x => x.fileId = some k) = some x := by
    intro k nu hnu
    by_contra hnone
    rw [← Option.isSome_iff_exists, Bool.not_eq_true, Option.isSome_eq_false_iff,
      Option.isNone_iff_eq_none, List.find?_eq_none] at hnone
    rw [not_filed place fun x hx => by simpa using hnone x hx] at hnu
    cases hnu
  obtain ⟨x, hx⟩ := hfind hmu
  obtain ⟨y, hy⟩ := hfind hmu'
  obtain ⟨pre, post, nu, hsplit, hat, hnu, hnuid, hnone, hget⟩ := filed_first place hx
  obtain ⟨pre', post', nu', hsplit', hat', hnu', hnuid', -, hget'⟩ := filed_first place hy
  obtain rfl := Option.some.inj (hmu.symm.trans hget)
  obtain rfl := Option.some.inj (hmu'.symm.trans hget')
  obtain ⟨hlt, hia, hjb, hsame⟩ := hprec
  -- The first copies are copies of `a` and `b`, from a page or local.
  have hxa : x = a.item ∨ x = echoItem a.entry := by
    obtain ⟨r, hr, hri, -, hcase⟩ := hfrom.fileId (List.mem_of_find?_eq_some hx)
      (by simpa using List.find?_some hx)
    rwa [hunique.mutations r hr a ha i hri hia] at hcase
  have hyb : y = b.item ∨ y = echoItem b.entry := by
    obtain ⟨r, hr, hrj, -, hcase⟩ := hfrom.fileId (List.mem_of_find?_eq_some hy)
      (by simpa using List.find?_some hy)
    rwa [hunique.mutations r hr b hb j hrj hjb] at hcase
  have hseq := (mutationOf_some hnu).2.1
  have hseq' := (mutationOf_some hnu').2.1
  rcases hxa with rfl | rfl
  · rw [hseq]
    rcases hyb with rfl | rfl
    · rw [hseq']
      exact hlt
    · rw [hseq']
      exact (hlow a ha).trans_le (localSeq_le_foldl place pre' _)
  · obtain ⟨hecho, hbefore⟩ := horderly a ha b hb i j ⟨hlt, hia, hjb, hsame⟩
      (by rw [echoFirst, hx]; rfl)
    have hylocal : y.isLocal = true := by simpa [echoFirst, hy] using hecho
    rcases hyb with rfl | rfl
    · cases hylocal
    · -- The echo of `a` took an order number before the echo of `b` did.
      rw [hat, hat'] at hbefore
      obtain ⟨mid, rfl⟩ := exists_mid_of_length_lt (hsplit.symm.trans hsplit') hbefore
      rw [hseq, hseq']
      exact localSeq_lt_of_echo hnu rfl (hnuid ▸ hnone) mid

/-! ### Mirroring the relay log -/

/-- A log that holds what a relay log says: its lines, its mutations, and for each line the order
of its mutations. -/
structure Mirrors (place : Place) (R : RelayLog) (log : ChannelLog) : Prop where
  base : ∀ id m, log.base.get? id = some m ↔
    ∃ r ∈ R.entries, contentOf place r.item = some m ∧ m.id = id
  filed : ∀ r ∈ R.entries, ∀ i, r.item.fileId = some i →
    ∃ mu, log.mutations.get? i = some mu ∧ mu.entry = r.entry
  only : ∀ i mu, log.mutations.get? i = some mu →
    mu.id = i ∧ ∃ r ∈ R.entries, r.item.fileId = some i ∧ mu.entry = r.entry
  ordered : ∀ a ∈ R.entries, ∀ b ∈ R.entries, ∀ i j, Precedes a b i j → ∀ mu mu',
    log.mutations.get? i = some mu → log.mutations.get? j = some mu' → mu.seq < mu'.seq

/-- A mutation of the line under an identity. -/
def pointsAt (id : Str) (entry : Value) : Bool := target entry = .ok (some id)

/-- The mutations of a line, in the relay's order. -/
def RelayLog.mutationsOf (R : RelayLog) (id : Str) : List Relayed :=
  R.entries.filter fun r => r.item.fileId.isSome && pointsAt id r.entry

theorem map_filterMap_eq {l : List Relayed} {g : Relayed → Option Mutation}
    (h : ∀ r ∈ l, ∃ mu, g r = some mu ∧ mu.entry = r.entry) :
    (l.filterMap g).map Mutation.entry = l.map Relayed.entry := by
  induction l with
  | nil => rfl
  | cons r l ih =>
    obtain ⟨mu, hmu, hentry⟩ := h r (List.mem_cons_self ..)
    rw [List.filterMap_cons_some hmu, List.map_cons, List.map_cons, hentry,
      ih fun r' hr' => h r' (List.mem_cons_of_mem _ hr')]

section

variable {place : Place} {R : RelayLog} {log : ChannelLog}

/-- The mutations of a line as a log holds them, in the relay's order. -/
def filedFor (R : RelayLog) (log : ChannelLog) (id : Str) : List Mutation :=
  (R.mutationsOf id).filterMap fun r => r.item.fileId.bind log.mutations.get?

theorem mem_mutationsOf {id : Str} {r : Relayed} : r ∈ R.mutationsOf id ↔
    r ∈ R.entries ∧ (∃ i, r.item.fileId = some i) ∧ target r.entry = .ok (some id) := by
  simp [RelayLog.mutationsOf, pointsAt, Option.isSome_iff_exists]

theorem Mirrors.pairwise_filedFor (h : Mirrors place R log) (id : Str) :
    (filedFor R log id).Pairwise fun mu mu' => mu.seq < mu'.seq := by
  rw [filedFor, List.pairwise_filterMap]
  refine (R.increasing.filter _).imp_of_mem fun {a b} ha hb hlt mu hmu mu' hmu' => ?_
  obtain ⟨ha, -, hta⟩ := mem_mutationsOf.mp ha
  obtain ⟨hb, -, htb⟩ := mem_mutationsOf.mp hb
  obtain ⟨i, hi, hmu⟩ := Option.bind_eq_some_iff.mp hmu
  obtain ⟨j, hj, hmu'⟩ := Option.bind_eq_some_iff.mp hmu'
  exact h.ordered a ha b hb i j ⟨hlt, hi, hj, id, hta, htb⟩ mu mu' hmu hmu'

theorem Mirrors.nodup_ordered (h : Mirrors place R log) : log.ordered.Nodup := by
  rw [ChannelLog.ordered, (List.perm_insertionSort _ _).nodup_iff, Dict.values, List.Nodup,
    List.pairwise_map]
  refine log.mutations.distinct.imp_of_mem fun {p q} hp hq hne heq => ?_
  have hp := (h.only p.1 p.2 (Dict.mem_entries_iff.mp hp)).1
  have hq := (h.only q.1 q.2 (Dict.mem_entries_iff.mp hq)).1
  rw [← hp, ← hq, heq] at hne
  simp at hne

theorem Mirrors.mem_filedFor (h : Mirrors place R log) {id : Str} :
    mu ∈ filedFor R log id ↔ mu ∈ log.ordered.filter fun mu => pointsAt id mu.entry := by
  rw [List.mem_filter, mem_ordered, filedFor, List.mem_filterMap]
  constructor
  · rintro ⟨r, hr, hmu⟩
    obtain ⟨hr, -, htarget⟩ := mem_mutationsOf.mp hr
    obtain ⟨i, hi, hmu⟩ := Option.bind_eq_some_iff.mp hmu
    obtain ⟨mu', hmu', hentry⟩ := h.filed r hr i hi
    obtain rfl := Option.some.inj (hmu.symm.trans hmu')
    exact ⟨⟨i, hmu⟩, by rw [hentry, pointsAt, htarget, decide_eq_true rfl]⟩
  · rintro ⟨⟨i, hmu⟩, hpoints⟩
    obtain ⟨-, r, hr, hi, hentry⟩ := h.only i mu hmu
    rw [hentry, pointsAt, decide_eq_true_eq] at hpoints
    exact ⟨r, mem_mutationsOf.mpr ⟨hr, ⟨i, hi⟩, hpoints⟩, by rw [hi]; exact hmu⟩

/-- **A line's mutations.**  A log that mirrors a relay log replays over each line what the relay
has for it, in the relay's order. -/
theorem Mirrors.replayed_filter (h : Mirrors place R log) (id : Str) :
    log.replayed.filter (pointsAt id) = (R.mutationsOf id).map Relayed.entry := by
  have hstrict := h.pairwise_filedFor id
  have hperm : (log.ordered.filter fun mu => pointsAt id mu.entry).Perm (filedFor R log id) := by
    refine (List.perm_ext_iff_of_nodup (h.nodup_ordered.filter _) ?_).mpr
      fun mu => h.mem_filedFor.symm
    exact hstrict.imp fun hlt heq => absurd hlt (by rw [heq]; exact Nat.lt_irrefl _)
  -- Both lists are sorted by order number, and no two order numbers of the line are equal.
  have heq : (log.ordered.filter fun mu => pointsAt id mu.entry) = filedFor R log id := by
    refine @List.Perm.eq_of_pairwise _ (fun mu mu' => mu.seq ≤ mu'.seq) _ _ ?_ ?_ ?_ hperm
    · intro mu mu' hmu hmu' hle hge
      by_contra hne
      have : Std.Symm fun mu mu' : Mutation => mu.seq ≠ mu'.seq := ⟨fun _ _ => Ne.symm⟩
      have hdistinct := hstrict.imp fun {mu mu' : Mutation} (hlt : mu.seq < mu'.seq) =>
        Nat.ne_of_lt hlt
      exact hdistinct.forall (hperm.mem_iff.mp hmu) hmu' hne (Nat.le_antisymm hle hge)
    · exact (List.pairwise_insertionSort _ _).filter _
    · exact hstrict.imp Nat.le_of_lt
  rw [ChannelLog.replayed, List.filter_map]
  change (log.ordered.filter fun mu => pointsAt id mu.entry).map Mutation.entry = _
  rw [heq]
  refine map_filterMap_eq fun r hr => ?_
  obtain ⟨hr, ⟨i, hi⟩, -⟩ := mem_mutationsOf.mp hr
  obtain ⟨mu, hmu, hentry⟩ := h.filed r hr i hi
  exact ⟨mu, by rw [hi]; exact hmu, hentry⟩

end

/-! ### A device that has folded every page mirrors the relay log -/

/-- What an echo says, the relay's copy says under the same identity. -/
theorem contentOf_of_echo {r : Relayed} {m : Message}
    (h : contentOf place (echoItem r.entry) = some m) :
    ∃ m', contentOf place r.item = some m' ∧ m'.id = m.id := by
  unfold contentOf at h
  split at h
  next hc =>
    split at h
    next m₀ hm₀ =>
      obtain rfl := Option.some.inj h
      refine ⟨{ m₀ with seq := some r.seq, isLocal := false }, ?_, rfl⟩
      have hc' : r.item.isContent = true := hc
      have hm' : entryToMessage r.item.entry place r.item.auth r.item.seq =
          .ok (some { m₀ with seq := some r.seq }) := by
        rw [entryToMessage_seq]
        exact congrArg (Except.map (Option.map fun m => { m with seq := some r.seq })) hm₀
      rw [contentOf, if_pos hc', hm']
      rfl
    next => cases h
  next => cases h

theorem isLocal_of_contentOf {m : Message}
    (h : contentOf place x = some m) : m.isLocal = x.isLocal := by
  obtain ⟨sender, ts, reply, body, -, -, rfl⟩ := contentOf_some h
  rfl

section

variable {place : Place} {R : RelayLog} {items : List Item}

variable {id : Str} {m : Message}

theorem mem_copies :
    m ∈ copies place id items ↔ ∃ x ∈ items, contentOf place x = some m ∧ m.id = id := by
  rw [copies, List.mem_filter, List.mem_filterMap, decide_eq_true_eq]
  constructor
  · rintro ⟨⟨x, hx, hm⟩, hid⟩
    exact ⟨x, hx, hm, hid⟩
  · rintro ⟨x, hx, hm, hid⟩
    exact ⟨⟨x, hx, hm⟩, hid⟩

/-- A copy of a line that is not local is a relayed entry's. -/
theorem FoldedFrom.relayed (hfrom : FoldedFrom R items)
    (hm : m ∈ copies place id items) (hlocal : m.isLocal = false) :
    ∃ r ∈ R.entries, contentOf place r.item = some m ∧ m.id = id := by
  obtain ⟨x, hx, hc, hid⟩ := mem_copies.mp hm
  obtain ⟨r, hr, rfl | rfl⟩ := hfrom x hx
  · exact ⟨r, hr, hc, hid⟩
  · rw [isLocal_of_contentOf hc] at hlocal
    cases hlocal

theorem get?_after (id : Str) : (after place items).base.get? id = pick (copies place id items) := by
  rw [after, foldl_fold1_get?]
  exact foldl_keep_none _

theorem mem_copies_of_get?
    (h : (after place items).base.get? id = some m) : m ∈ copies place id items := by
  rw [get?_after] at h
  rcases Option.or_eq_some_iff.mp h with h | ⟨-, h⟩
  · exact List.mem_of_find?_eq_some h
  · exact List.mem_of_head? h

/-- Once the relay's copy of a line has been folded, it is the one that stands. -/
theorem get?_of_copy (hm : m ∈ copies place id items) (hlocal : m.isLocal = false)
    (honly : ∀ m' ∈ copies place id items, m'.isLocal = false → m' = m) :
    (after place items).base.get? id = some m := by
  rw [get?_after]
  cases hf : (copies place id items).find? (fun m => !m.isLocal) with
  | none => exact absurd (List.find?_eq_none.mp hf m hm) (by simp [hlocal])
  | some m' =>
    rw [pick, hf, honly m' (List.mem_of_find?_eq_some hf) (by simpa using List.find?_some hf)]
    rfl

theorem base_iff (hfrom : FoldedFrom R items) (hcover : ∀ r ∈ R.entries, r.item ∈ items)
    (hunique : Unambiguous place R) (id : Str) (m : Message) :
    (after place items).base.get? id = some m ↔
      ∃ r ∈ R.entries, contentOf place r.item = some m ∧ m.id = id := by
  have hstands : ∀ r ∈ R.entries, ∀ m, contentOf place r.item = some m → m.id = id →
      (after place items).base.get? id = some m := by
    intro r hr m hm hid
    refine get?_of_copy (mem_copies.mpr ⟨r.item, hcover r hr, hm, hid⟩) (isLocal_of_contentOf hm) ?_
    intro m' hm' hlocal
    obtain ⟨r', hr', hc', hid'⟩ := hfrom.relayed hm' hlocal
    obtain rfl := hunique.lines r hr r' hr' m m' hm hc' (hid.trans hid'.symm)
    exact Option.some.inj (hc'.symm.trans hm)
  constructor
  · intro hget
    obtain ⟨x, hx, hc, hid⟩ := mem_copies.mp (mem_copies_of_get? hget)
    obtain ⟨r, hr, rfl | rfl⟩ := hfrom x hx
    · exact ⟨r, hr, hc, hid⟩
    · -- an echo stands only if it is what the relay's copy says
      obtain ⟨m', hm', hid'⟩ := contentOf_of_echo hc
      obtain rfl := Option.some.inj (hget.symm.trans (hstands r hr m' hm' (hid'.trans hid)))
      exact ⟨r, hr, hm', hid⟩
  · rintro ⟨r, hr, hm, hid⟩
    exact hstands r hr m hm hid

theorem filed_iff (hfrom : FoldedFrom R items)
    (h : (after place items).mutations.get? i = some mu) :
    mu.id = i ∧ ∃ r ∈ R.entries, r.item.fileId = some i ∧ mu.entry = r.entry := by
  cases hf : items.find? (fun x => x.fileId = some i) with
  | none =>
    rw [not_filed place fun x hx => by simpa using List.find?_eq_none.mp hf x hx] at h
    cases h
  | some x =>
    obtain ⟨pre, post, mu', -, -, hmu', hid, -, hget⟩ := filed_first place hf
    obtain rfl := Option.some.inj (h.symm.trans hget)
    obtain ⟨r, hr, hri, hentry, -⟩ := hfrom.fileId (List.mem_of_find?_eq_some hf)
      (by simpa using List.find?_some hf)
    exact ⟨hid, r, hr, hri, (mutationOf_some hmu').1.trans hentry⟩

/-- **Every page folded.**  An orderly device that has folded every entry of an unambiguous relay
log from a page mirrors it. -/
theorem mirrors_of_covers (hfrom : FoldedFrom R items)
    (hcover : ∀ r ∈ R.entries, r.item ∈ items) (hunique : Unambiguous place R)
    (hlow : ∀ r ∈ R.entries, r.seq < createChannelLog.localSeq) (horderly : Orderly R items) :
    Mirrors place R (after place items) where
  base := base_iff hfrom hcover hunique
  filed r hr i hi := by
    cases hf : items.find? (fun x => x.fileId = some i) with
    | none => exact absurd (List.find?_eq_none.mp hf r.item (hcover r hr)) (by simp [hi])
    | some x =>
      obtain ⟨pre, post, mu, -, -, -, -, -, hget⟩ := filed_first place hf
      obtain ⟨-, r', hr', hi', hentry⟩ := filed_iff hfrom hget
      rw [hunique.mutations r' hr' r hr i hi' hi] at hentry
      exact ⟨mu, hget, hentry⟩
  only i mu h := filed_iff hfrom h
  ordered a ha b hb i j hprec mu mu' hmu hmu' :=
    seq_lt_of_precedes hfrom hunique hlow horderly ha hb hprec hmu hmu'

end

/-! ### Logs that mirror one relay log show the same -/

/-- A line's replay only needs the mutations that point at it. -/
theorem replayLine_filter {id : Str} {entries : List Value}
    (htargets : ∀ entry ∈ entries, ∃ t, target entry = .ok t) (m : Message) :
    replayLine id entries m = replayLine id (entries.filter (pointsAt id)) m := by
  refine (replayLine_filter_of_dropped htargets (fun entry _ hpoints htarget => ?_) m).symm
  rw [pointsAt, htarget, decide_eq_false_iff_not] at hpoints
  exact hpoints rfl

section

variable {place : Place} {R : RelayLog} {log log' : ChannelLog}

theorem Mirrors.mem_replayed_iff (h : Mirrors place R log) {entry : Value} :
    entry ∈ log.replayed ↔ ∃ r ∈ R.entries, (∃ i, r.item.fileId = some i) ∧ r.entry = entry := by
  rw [mem_replayed]
  constructor
  · rintro ⟨i, mu, hmu, rfl⟩
    obtain ⟨-, r, hr, hi, hentry⟩ := h.only i mu hmu
    exact ⟨r, hr, ⟨i, hi⟩, hentry.symm⟩
  · rintro ⟨r, hr, ⟨i, hi⟩, rfl⟩
    obtain ⟨mu, hmu, hentry⟩ := h.filed r hr i hi
    exact ⟨i, mu, hmu, hentry⟩

theorem Mirrors.base_eq (h : Mirrors place R log) (h' : Mirrors place R log') (id : Str) :
    log.base.get? id = log'.base.get? id :=
  Option.ext fun m => (h.base id m).trans (h'.base id m).symm

theorem Mirrors.replayLine_eq (h : Mirrors place R log) (h' : Mirrors place R log')
    (htargets : ∀ entry ∈ log.replayed, ∃ t, target entry = .ok t) (id : Str) (m : Message) :
    replayLine id log.replayed m = replayLine id log'.replayed m := by
  have htargets' : ∀ entry ∈ log'.replayed, ∃ t, target entry = .ok t := fun entry he =>
    htargets entry (h.mem_replayed_iff.mpr (h'.mem_replayed_iff.mp he))
  rw [replayLine_filter htargets, replayLine_filter htargets', h.replayed_filter,
    h'.replayed_filter]

/-- If one log that mirrors a relay log renders, so does every other, with the same lines. -/
theorem Mirrors.replay_eq_ok (h : Mirrors place R log) (h' : Mirrors place R log')
    {shown : Dict Str Message} (hs : replay log = .ok shown) :
    ∃ shown', replay log' = .ok shown' ∧ ∀ id, shown.get? id = shown'.get? id := by
  have hok := (foldlM_applyMutation_ok_iff log.replayed log.base).mp ⟨shown, replay_eq log ▸ hs⟩
  have hline := h.replayLine_eq h' hok.1
  obtain ⟨shown', hs'⟩ := (foldlM_applyMutation_ok_iff log'.replayed log'.base).mpr
    ⟨fun entry he => hok.1 entry (h.mem_replayed_iff.mpr (h'.mem_replayed_iff.mp he)),
      fun id m hm => by rw [← hline]; exact hok.2 id m ((h.base_eq h' id).trans hm)⟩
  rw [← replay_eq] at hs'
  exact ⟨shown', hs', fun id => shown_eq hs hs' (h.base_eq h' id) (hline id)⟩

theorem Mirrors.renderLog_eq_ok (h : Mirrors place R log) (h' : Mirrors place R log')
    {lines : List Message} (hl : renderLog log = .ok lines) :
    ∃ lines', renderLog log' = .ok lines' ∧ lines.Perm lines' := by
  obtain ⟨shown, hs, rfl⟩ := Quorum.renderLog_eq_ok.mp hl
  obtain ⟨shown', hs', hsame⟩ := h.replay_eq_ok h' hs
  refine ⟨_, Quorum.renderLog_eq_ok.mpr ⟨shown', hs', rfl⟩, ?_⟩
  exact ((List.perm_insertionSort _ _).trans (Dict.perm_values hsame)).trans
    (List.perm_insertionSort _ _).symm

end

/-! ### Convergence -/

theorem orderly_of_pagesOnly {arrivals : List Arrival}
    (h : PagesOnly arrivals) : Orderly R (folded place arrivals) := by
  intro a _ b _ i j _ hecho
  rw [echoFirst, Option.any_eq_true] at hecho
  obtain ⟨x, hx, hlocal⟩ := hecho
  obtain ⟨a, ha, hx⟩ := List.mem_flatMap.mp (List.mem_of_find?_eq_some hx)
  obtain ⟨page, rfl⟩ := h a ha
  obtain ⟨e, -, rfl⟩ := List.mem_map.mp (reached_subset place _ hx)
  cases hlocal

/-- **Echoes converge.**  A device that folds local copies of entries of a relay log at any time,
and every entry from a page in the end, renders the same lines as a device that folded only pages:
when no identity is used twice, the relay's numbers stay below the provisional ones, and of two
mutations of one line the earlier was not first seen as an echo unless the later was so after it. -/
theorem echoes_converge (place : Place) (R : RelayLog) (arrivals fresh : List Arrival)
    (hfrom : FoldsFrom R arrivals) (hcover : Covers place R arrivals)
    (hfresh : FoldsFrom R fresh) (hpages : PagesOnly fresh) (hfreshCover : Covers place R fresh)
    (hunique : Unambiguous place R)
    (hlow : ∀ r ∈ R.entries, r.seq < createChannelLog.localSeq)
    (horderly : Orderly R (folded place arrivals)) :
    (renderLog (runArrivals place arrivals)).isOk = (renderLog (runArrivals place fresh)).isOk ∧
      ∀ lines lines', renderLog (runArrivals place arrivals) = .ok lines →
        renderLog (runArrivals place fresh) = .ok lines' → lines.Perm lines' := by
  have hdevice := mirrors_of_covers (foldedFrom hfrom) hcover hunique hlow horderly
  have hother := mirrors_of_covers (foldedFrom hfresh) hfreshCover hunique hlow
    (orderly_of_pagesOnly hpages)
  rw [runArrivals_eq_foldl, runArrivals_eq_foldl]
  constructor
  · rw [Bool.eq_iff_iff, isOk_iff, isOk_iff]
    constructor
    · rintro ⟨lines, hl⟩
      obtain ⟨lines', hl', -⟩ := hdevice.renderLog_eq_ok hother hl
      exact ⟨lines', hl'⟩
    · rintro ⟨lines, hl⟩
      obtain ⟨lines', hl', -⟩ := hother.renderLog_eq_ok hdevice hl
      exact ⟨lines', hl'⟩
  · intro lines lines' hl hl'
    obtain ⟨lines'', hl'', hperm⟩ := hdevice.renderLog_eq_ok hother hl
    obtain rfl := Except.ok.inj (hl'.symm.trans hl'')
    exact hperm

/-- An edit entry: its author, its timestamp, the line it points at and the new text. -/
def editEntry (sender : Str) (ts : Number) (lineTs : Number) (text : Str) : Value :=
  .obj 3 [(lit "k", .str (lit "edit")), (lit "to", .obj 4 [(lit "ts", .num lineTs)]),
    (lit "text", .str text), (lit "ts", .num ts), (lit "sender", .str sender)]

/-- A line that its author edited twice. -/
def editedTwice : RelayLog where
  entries :=
    [⟨1, chatEntry (lit "alice") (.ofRat 5) (lit "draft")⟩,
      ⟨2, editEntry (lit "alice") (.ofRat 6) (.ofRat 5) (lit "first")⟩,
      ⟨3, editEntry (lit "alice") (.ofRat 7) (.ofRat 5) (lit "second")⟩]
  increasing := by simp

def texts (log : ChannelLog) : Option (List (Option Str)) :=
  (renderLog log).toOption.map fun lines => lines.map fun m =>
    match m.body with
    | some (.text s) => some s
    | _ => none

/-- A device that echoed the first edit keeps showing it over the second, after every page. -/
theorem echoed_edit_diverges :
    texts (runArrivals ⟨[], []⟩
        [.addLocalEntry (editEntry (lit "alice") (.ofRat 6) (.ofRat 5) (lit "first")),
          .addEntries (editedTwice.entries.map Relayed.toPage)]) = some [some (lit "first")] ∧
      texts (runArrivals ⟨[], []⟩ [.addEntries (editedTwice.entries.map Relayed.toPage)]) =
        some [some (lit "second")] := by
  decide +kernel

/-- A line that its author edited once. -/
def editedOnce : RelayLog where
  entries :=
    [⟨1, chatEntry (lit "alice") (.ofRat 5) (lit "draft")⟩,
      ⟨2, editEntry (lit "alice") (.ofRat 6) (.ofRat 5) (lit "first")⟩]
  increasing := by simp

/-- The one page of that log, and the same after an echo of the edit. -/
def onePage : List Arrival := [.addEntries (editedOnce.entries.map Relayed.toPage)]

@[inherit_doc onePage]
def echoThenPage : List Arrival :=
  .addLocalEntry (editEntry (lit "alice") (.ofRat 6) (.ofRat 5) (lit "first")) :: onePage

/-- The writing device of a single edit ends with what everyone reads. -/
theorem echoed_edit_converges :
    (renderLog (runArrivals ⟨[], []⟩ echoThenPage)).isOk =
        (renderLog (runArrivals ⟨[], []⟩ onePage)).isOk ∧
      ∀ lines lines', renderLog (runArrivals ⟨[], []⟩ echoThenPage) = .ok lines →
        renderLog (runArrivals ⟨[], []⟩ onePage) = .ok lines' → lines.Perm lines' := by
  have hedit : ∀ r ∈ editedOnce.entries, r.item.fileId.isSome = true → r.seq = 2 := by
    decide +kernel
  have hchat : ∀ r ∈ editedOnce.entries, (contentOf ⟨[], []⟩ r.item).isSome = true → r.seq = 1 := by
    decide +kernel
  have hseq : ∀ a ∈ editedOnce.entries, ∀ b ∈ editedOnce.entries, a.seq = b.seq → a = b := by
    simp [editedOnce]
  have hpage : FoldsFrom editedOnce onePage := by
    intro a ha
    obtain rfl := List.mem_singleton.mp ha
    intro e he
    obtain ⟨r, hr, rfl⟩ := List.mem_map.mp he
    exact ⟨r, hr, rfl⟩
  have hcover : Covers ⟨[], []⟩ editedOnce onePage := by
    intro r hr
    refine List.mem_flatMap.mpr ⟨_, List.mem_singleton.mpr rfl, ?_⟩
    rw [reached_eq_self (by decide +kernel)]
    exact List.mem_map_of_mem (List.mem_map_of_mem hr)
  refine echoes_converge ⟨[], []⟩ editedOnce echoThenPage onePage ?_ ?_ hpage ?_ hcover ⟨?_, ?_⟩
    (by decide) ?_
  · exact List.forall_mem_cons.mpr
      ⟨⟨_, List.mem_cons_of_mem _ (List.mem_singleton.mpr rfl), rfl⟩, hpage⟩
  · exact fun r hr => List.mem_append_right _ (hcover r hr)
  · exact fun a ha => ⟨_, List.mem_singleton.mp ha⟩
  · intro a ha b hb m m' hm hm' _
    exact hseq a ha b hb ((hchat a ha (by simp [hm])).trans (hchat b hb (by simp [hm'])).symm)
  · intro a ha b hb i hi hi'
    exact hseq a ha b hb ((hedit a ha (by simp [hi])).trans (hedit b hb (by simp [hi'])).symm)
  · rintro a ha b hb i j ⟨hlt, hi, hj, -⟩
    rw [hedit a ha (by simp [hi]), hedit b hb (by simp [hj])] at hlt
    exact absurd hlt (Nat.lt_irrefl _)

end Quorum
