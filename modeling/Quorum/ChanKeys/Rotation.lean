import Quorum.ChanKeys.Refine

/-!
# Rotating a key and merging it back

Removing a member rotates a channel's write key: the fresh key `k'` becomes current and the old key
`k` is listed as superseded.  Devices then exchange snapshots of the channel, and every merge takes
the *lower* of two current keys of a log.  Which key superseded which plays no part, so a rotation
holds exactly when the fresh key sorts before the old one (`Rotation.neverBack_iff`): otherwise the
first snapshot of a device that has not heard of it undoes the rotation.
-/

namespace Quorum

open Js

/-! ### Merging two views of one log -/

namespace View

variable {a b : View}

theorem hid_merge_of_eq (h : a.hid = b.hid) : (a.merge b).hid = a.hid := by
  change min a.hid b.hid = a.hid
  rw [← h, min_self]

/-- Of two keys for one log the lower is written under. -/
theorem hkey_merge_of_eq (h : a.hid = b.hid) : (a.merge b).hkey = min a.hkey b.hkey := by
  have hle : ∀ x y : View, x.hid = y.hid → x.hkey ≤ y.hkey → x.write ≤ y.write :=
    fun x y hid hkey => Prod.Lex.toLex_le_toLex.mpr (.inr ⟨hid, hkey⟩)
  change (ofLex (min a.write b.write)).2 = _
  rcases le_total a.hkey b.hkey with hk | hk
  · rw [min_eq_left hk, min_eq_left (hle a b h hk)]
    rfl
  · rw [min_eq_right hk, min_eq_right (hle b a h.symm hk)]
    rfl

theorem hkey_merge_not_mem (a b : View) : (a.merge b).hkey ∉ (a.merge b).hkeys :=
  fun h => (mem_hkeys_merge.mp h).2 rfl

def rotate (v : View) (fresh : Str) (h : fresh ≠ []) : View :=
  { v with
    hkey := fresh
    hkeys := v.hkey :: v.hkeys
    hkey_ne := h
    hkeys_ne := by
      intro k hk
      rcases List.mem_cons.mp hk with rfl | hk
      · exact v.hkey_ne
      · exact v.hkeys_ne k hk }

end View

/-! ### The rotation loop -/

/-- One turn of the loop rotates a well-formed entry. -/
theorem rotateMeta_reads {entry : Value} {v : View} (h : Reads entry v) {fresh : Str}
    (hf : fresh ≠ []) :
    ∃ rotated, rotateMeta entry fresh = .ok (some rotated) ∧ Reads rotated (v.rotate fresh hf) := by
  obtain ⟨ref, props, rfl⟩ := h.exists_obj
  let written := [(lit "hkey", Value.str fresh),
    (lit "hkeys", Value.ofList (.str v.hkey :: v.hkeys.map .str))]
  have hnames : written.map Prod.fst = [lit "hkey", lit "hkeys"] := rfl
  have hnodup : (written.map Prod.fst).Nodup := by
    rw [hnames]
    decide
  refine ⟨Value.ofDict ((Value.obj ref props).spread.setAll written), ?_, ?_⟩
  · have hid : (Value.str v.hid).truthy = true := decide_eq_true v.hid_ne
    have hkey : (Value.str v.hkey).truthy = true := decide_eq_true v.hkey_ne
    simp only [rotateMeta, h.hid, h.hkey, h.hkeys, hid, hkey, ok_bind, pure_eq]
    rfl
  · constructor
    · rw [Value.get_spread_setAll (by rw [hnames]; decide)]
      exact h.hid
    · exact get_written hnodup (List.mem_cons_self ..)
    · rw [get_written hnodup (List.mem_cons_of_mem _ (List.mem_cons_self ..))]
      rfl
    · rw [Value.get_spread_setAll (by rw [hnames]; decide)]
      exact h.alts

/-- A turn that returns leaves the other channels alone. -/
theorem rotateChannel_cases {mint : Str → Str} {acc acc' : Dict Str Value × List Str}
    {p : Str × Value} (h : rotateChannel mint acc p = .ok acc') :
    ∃ rotated, rotateMeta p.2 (mint p.1) = .ok rotated ∧
      ∀ c, acc'.1.get? c = if p.1 = c then rotated.or (acc.1.get? c) else acc.1.get? c := by
  obtain ⟨rotated, hr, h⟩ := bind_eq_ok.mp h
  refine ⟨rotated, hr, fun c => ?_⟩
  cases rotated with
  | none =>
    cases h
    rw [Option.none_or, ite_self]
  | some entry =>
    cases h
    simp [Dict.get?_set]

theorem foldlM_rotateChannel {mint : Str → Str} {l : List (Str × Value)}
    {acc acc' : Dict Str Value × List Str} (hl : (l.map Prod.fst).Nodup)
    (h : l.foldlM (rotateChannel mint) acc = .ok acc') :
    (∀ c, c ∉ l.map Prod.fst → acc'.1.get? c = acc.1.get? c) ∧
      ∀ c entry, (c, entry) ∈ l → ∃ rotated, rotateMeta entry (mint c) = .ok rotated ∧
        acc'.1.get? c = rotated.or (acc.1.get? c) := by
  induction l generalizing acc with
  | nil =>
    cases h
    exact ⟨fun _ _ => rfl, nofun⟩
  | cons p l ih =>
    rw [List.map_cons, List.nodup_cons] at hl
    obtain ⟨mid, hmid, hrest⟩ := foldlM_cons_eq_ok.mp h
    obtain ⟨rotated, hr, hget⟩ := rotateChannel_cases hmid
    obtain ⟨hout, hin⟩ := ih hl.2 hrest
    constructor
    · intro c hc
      rw [List.map_cons, List.mem_cons, not_or] at hc
      rw [hout c hc.2, hget, if_neg (Ne.symm hc.1)]
    · intro c entry hmem
      rcases List.mem_cons.mp hmem with rfl | hmem
      · refine ⟨rotated, hr, ?_⟩
        rw [hout c hl.1, hget, if_pos rfl]
      · have hne : p.1 ≠ c := by
          rintro rfl
          exact hl.1 (List.mem_map.mpr ⟨_, hmem, rfl⟩)
        obtain ⟨rotated', hr', hget'⟩ := hin c entry hmem
        exact ⟨rotated', hr', by rw [hget', hget, if_neg hne]⟩

/-- When the loop returns, every channel's entry has had its turn. -/
theorem rotateHistoryKeys_get? {chanMeta after : Dict Str Value} {mint : Str → Str}
    {channels : List Str} (h : rotateHistoryKeys chanMeta mint = .ok (after, channels))
    {c : Str} {entry : Value} (hc : chanMeta.get? c = some entry) :
    ∃ rotated, rotateMeta entry (mint c) = .ok rotated ∧
      after.get? c = some (rotated.getD entry) := by
  obtain ⟨-, hin⟩ := foldlM_rotateChannel (Dict.nodup_keys chanMeta) h
  obtain ⟨rotated, hr, hget⟩ := hin c entry (Dict.mem_entries_iff.mpr hc)
  refine ⟨rotated, hr, ?_⟩
  rw [hget, hc]
  cases rotated <;> rfl

/-! ### Devices that exchange snapshots -/

/-- Devices that exchange snapshots of one channel's entry. -/
structure Net (ι : Type) where
  /-- The channel's entry on each device. -/
  entry : ι → Value
  /-- The snapshots sent so far.  Each reaches any device at any later time, or several times. -/
  sent : List Value
  /-- The devices that merged a snapshot which lists the old key as superseded. -/
  learned : ι → Prop

/-- A snapshot of the log lists a key as superseded. -/
def Supersedes (hid k : Str) (snapshot : Value) : Prop :=
  snapshot.get (lit "hid") = .str hid ∧
    ∃ l, (snapshot.get (lit "hkeys")).elements = .ok l ∧ .str k ∈ l

/-- One step: a device sends its entry, or folds a snapshot in, as a change of settings or as a
rebroadcast. -/
inductive Exchange {ι : Type} [DecidableEq ι] (hid k : Str) : Net ι → Net ι → Prop
  | send (s : Net ι) (d : ι) : Exchange hid k s { s with sent := s.entry d :: s.sent }
  | fold (s : Net ι) (d : ι) {snapshot merged : Value} (mineWins : Bool)
      (hsent : snapshot ∈ s.sent)
      (hmerge : mergeChanKeys (s.entry d) snapshot mineWins = .ok merged) :
      Exchange hid k s
        { s with
          entry := Function.update s.entry d merged
          learned := fun e => s.learned e ∨ e = d ∧ Supersedes hid k snapshot }

/-- Devices that all write to one log under one key, and one of them about to remove a member. -/
structure Rotation (ι : Type) where
  /-- The log. -/
  hid : Str
  /-- The key all devices write under. -/
  k : Str
  /-- The channel's entry on each device, and what it says. -/
  entry : ι → Value
  view : ι → View
  reads : ∀ d, Reads (entry d) (view d)
  hid_eq : ∀ d, (view d).hid = hid
  hkey_eq : ∀ d, (view d).hkey = k
  /-- The key is current, so no device lists it as superseded. -/
  not_superseded : ∀ d, k ∉ (view d).hkeys
  /-- The device that removes the member, its channel settings and the keys it mints. -/
  rotator : ι
  channel : Str
  chanMeta : Dict Str Value
  at_channel : chanMeta.get? channel = some (entry rotator)
  mint : Str → Str
  mint_ne : mint channel ≠ []
  fresh_ne : mint channel ≠ k
  returns : (rotateHistoryKeys chanMeta mint).isOk = true

namespace Rotation

variable {ι : Type} (r : Rotation ι)

def fresh : Str := r.mint r.channel

def rotated : Value :=
  match rotateHistoryKeys r.chanMeta r.mint with
  | .ok (after, _) => (after.get? r.channel).getD .undefined
  | .error _ => .undefined

theorem rotated_reads : Reads r.rotated ((r.view r.rotator).rotate r.fresh r.mint_ne) := by
  obtain ⟨⟨after, channels⟩, hok⟩ := isOk_iff.mp r.returns
  obtain ⟨entry, hrot, hget⟩ := rotateHistoryKeys_get? hok r.at_channel
  obtain ⟨entry', hrot', hreads⟩ := rotateMeta_reads (r.reads r.rotator) r.mint_ne
  obtain rfl : entry = some entry' := Except.ok.inj (hrot.symm.trans hrot')
  unfold rotated
  rw [hok]
  change Reads ((after.get? r.channel).getD .undefined) _
  rw [hget]
  exact hreads

/-! ### What a merge can do to the key -/

/-- An entry for the log, under the fresh key, or under the old one as long as that gives way. -/
def Fits (entry : Value) : Prop :=
  ∃ v, Reads entry v ∧ v.hid = r.hid ∧
    (v.hkey = r.fresh ∨ r.fresh < r.k ∧ v.hkey = r.k ∧ r.k ∉ v.hkeys)

/-- An entry under the fresh key. -/
def Rotated (entry : Value) : Prop := entry.get (lit "hkey") = .str r.fresh

variable {r}

/-- A merge keeps entries fitting, and a fresh key on either side wins. -/
theorem fits_merge {x y m : Value} {mineWins : Bool} (hx : r.Fits x) (hy : r.Fits y)
    (hm : mergeChanKeys x y mineWins = .ok m) :
    r.Fits m ∧ (r.Rotated x ∨ r.Rotated y → r.Rotated m) := by
  obtain ⟨a, ha, haid, hakey⟩ := hx
  obtain ⟨b, hb, hbid, hbkey⟩ := hy
  obtain ⟨m', hm', hreads⟩ := mergeChanKeys_reads ha hb mineWins
  obtain rfl : m' = m := Except.ok.inj (hm'.symm.trans hm)
  have hid : a.hid = b.hid := haid.trans hbid.symm
  have hmin := View.hkey_merge_of_eq hid
  have hfresh : ∀ {entry : Value} {v : View}, Reads entry v →
      (r.Rotated entry ↔ v.hkey = r.fresh) := fun h => by
    rw [Rotated, h.hkey, Value.str.injEq]
  rw [hfresh ha, hfresh hb, hfresh hreads]
  have hfits : (a.merge b).hkey = r.fresh ∨ (r.fresh < r.k ∧ (a.merge b).hkey = r.k) ∧
      a.hkey = r.k ∧ b.hkey = r.k := by
    rw [hmin]
    rcases hakey with hakey | ⟨hlt, hakey, -⟩ <;> rcases hbkey with hbkey | ⟨hlt', hbkey, -⟩
    · exact .inl (by rw [hakey, hbkey, min_self])
    · exact .inl (by rw [hakey, hbkey, min_eq_left hlt'.le])
    · exact .inl (by rw [hakey, hbkey, min_eq_right hlt.le])
    · exact .inr ⟨⟨hlt, by rw [hakey, hbkey, min_self]⟩, hakey, hbkey⟩
  constructor
  · refine ⟨a.merge b, hreads, (View.hid_merge_of_eq hid).trans haid, hfits.imp id ?_⟩
    rintro ⟨⟨hlt, hk⟩, -⟩
    exact ⟨hlt, hk, hk ▸ View.hkey_merge_not_mem a b⟩
  · intro h
    refine hfits.resolve_right ?_
    rintro ⟨-, hak, hbk⟩
    rw [hak, hbk] at h
    exact r.fresh_ne (h.elim Eq.symm Eq.symm)

/-- Only an entry under the fresh key lists the old one as superseded. -/
theorem rotated_of_supersedes {entry : Value} (h : r.Fits entry)
    (hs : Supersedes r.hid r.k entry) : r.Rotated entry := by
  obtain ⟨v, hv, -, hkey⟩ := h
  obtain ⟨-, l, hl, hmem⟩ := hs
  obtain rfl : l = v.hkeys.map .str := Except.ok.inj (hl.symm.trans hv.hkeys)
  obtain ⟨k, hk, heq⟩ := List.mem_map.mp hmem
  rw [Rotated, hv.hkey]
  rcases hkey with hkey | ⟨-, -, hnot⟩
  · rw [hkey]
  · exact absurd (Value.str.inj heq ▸ hk) hnot

/-! ### Runs -/

variable [DecidableEq ι]

def start (r : Rotation ι) : Net ι := ⟨Function.update r.entry r.rotator r.rotated, [], fun _ => False⟩

def Reachable (r : Rotation ι) (s : Net ι) : Prop := Relation.ReflTransGen (Exchange r.hid r.k) r.start s

/-- No device that knows of the rotation writes under the old key. -/
def NeverBack (r : Rotation ι) (s : Net ι) : Prop :=
  ∀ d, d = r.rotator ∨ s.learned d → (s.entry d).get (lit "hkey") ≠ .str r.k

structure Kept (r : Rotation ι) (s : Net ι) : Prop where
  entry : ∀ d, r.Fits (s.entry d)
  sent : ∀ snapshot ∈ s.sent, r.Fits snapshot
  told : ∀ d, d = r.rotator ∨ s.learned d → r.Rotated (s.entry d)

theorem kept_start (h : r.fresh < r.k ∨ ∀ d, d = r.rotator) : Kept r r.start := by
  have hrot : r.start.entry r.rotator = r.rotated := Function.update_self ..
  constructor
  · intro d
    by_cases hd : d = r.rotator
    · rw [hd, hrot]
      exact ⟨_, r.rotated_reads, r.hid_eq r.rotator, .inl rfl⟩
    · have hentry : r.start.entry d = r.entry d := Function.update_of_ne hd ..
      have hlt := h.resolve_right fun hall => hd (hall d)
      rw [hentry]
      exact ⟨_, r.reads d, r.hid_eq d, .inr ⟨hlt, r.hkey_eq d, r.not_superseded d⟩⟩
  · exact nofun
  · rintro d (rfl | hd)
    · rw [hrot]
      exact r.rotated_reads.hkey
    · exact hd.elim

theorem Kept.step {s s' : Net ι} (hs : Kept r s) (h : Exchange r.hid r.k s s') : Kept r s' := by
  cases h with
  | send d =>
    refine ⟨hs.entry, ?_, hs.told⟩
    rintro snapshot (_ | ⟨_, hmem⟩)
    · exact hs.entry d
    · exact hs.sent snapshot hmem
  | @fold d snapshot merged mineWins hsent hmerge =>
    obtain ⟨hfits, hwins⟩ := fits_merge (hs.entry d) (hs.sent snapshot hsent) hmerge
    constructor
    · intro e
      rcases eq_or_ne e d with rfl | hne
      · simpa using hfits
      · simpa [hne] using hs.entry e
    · exact hs.sent
    · intro e he
      rcases eq_or_ne e d with rfl | hne
      · -- The device knew already, or the snapshot itself told it.
        suffices r.Rotated (s.entry e) ∨ r.Rotated snapshot by simpa using hwins this
        rcases he with he | he | ⟨-, he⟩
        · exact .inl (hs.told e (.inl he))
        · exact .inl (hs.told e (.inr he))
        · exact .inr (rotated_of_supersedes (hs.sent snapshot hsent) he)
      · have := hs.told e (he.imp id fun he => he.resolve_right fun h => hne h.1)
        simpa [hne] using this

theorem Kept.run {s : Net ι} (h : Kept r r.start) (hs : r.Reachable s) : Kept r s := by
  induction hs with
  | refl => exact h
  | tail _ hstep ih => exact ih.step hstep

/-- One snapshot of a device that has not heard of the rotation undoes it, if the old key sorts
first. -/
theorem exists_undone {d : ι} (hd : d ≠ r.rotator) (hlt : r.k < r.fresh) :
    ∃ s, r.Reachable s ∧ (s.entry r.rotator).get (lit "hkey") = .str r.k := by
  have hentry : r.start.entry d = r.entry d := Function.update_of_ne hd ..
  have hrot : r.start.entry r.rotator = r.rotated := Function.update_self ..
  obtain ⟨m, hm, hreads⟩ := mergeChanKeys_reads r.rotated_reads (r.reads d) false
  let sent : Net ι := { r.start with sent := r.start.entry d :: r.start.sent }
  have hsent : r.entry d ∈ sent.sent := hentry ▸ List.mem_cons_self ..
  have hmerge : mergeChanKeys (sent.entry r.rotator) (r.entry d) false = .ok m := hrot ▸ hm
  refine ⟨_, (Relation.ReflTransGen.single (.send _ d)).tail (.fold sent _ false hsent hmerge), ?_⟩
  have hid : ((r.view r.rotator).rotate r.fresh r.mint_ne).hid = (r.view d).hid :=
    (r.hid_eq r.rotator).trans (r.hid_eq d).symm
  have hkey : ((r.view r.rotator).rotate r.fresh r.mint_ne).hkey = r.fresh := rfl
  change (Function.update sent.entry r.rotator m r.rotator).get (lit "hkey") = _
  rw [Function.update_self, hreads.hkey, View.hkey_merge_of_eq hid, hkey, r.hkey_eq,
    min_eq_right hlt.le]

/-- **A rotation holds exactly when the fresh key sorts first**, or when there is no other device
to hear from. -/
theorem neverBack_iff (r : Rotation ι) :
    (∀ s, r.Reachable s → r.NeverBack s) ↔ r.fresh < r.k ∨ ∀ d, d = r.rotator := by
  constructor
  · intro h
    by_contra hcon
    rw [not_or, not_forall, not_lt] at hcon
    obtain ⟨hle, d, hd⟩ := hcon
    obtain ⟨s, hs, hkey⟩ := exists_undone hd (lt_of_le_of_ne hle r.fresh_ne.symm)
    exact h s hs r.rotator (.inl rfl) hkey
  · intro h s hs d hd hkey
    have hrot := ((kept_start h).run hs).told d hd
    exact r.fresh_ne (Value.str.inj (hrot.symm.trans hkey))

/-! ### Two devices -/

/-- The view of a channel with one log and one key. -/
def singleKey : View where
  hid := lit "log"
  hkey := lit "A"
  hkeys := []
  alts := []
  hid_ne := by decide
  hkey_ne := by decide
  hkeys_ne := nofun
  alts_ok := nofun

def singleKeyEntry : Value :=
  Value.ofDict (Dict.empty.setAll (keyProps (.str (lit "log")) (some (.str (lit "A"))) [] []))

/-- Two devices write under the key `A`, and one of them rotates it. -/
def twoDevices (fresh : Str) (hne : fresh ≠ []) (hfresh : fresh ≠ lit "A") : Rotation Bool where
  hid := lit "log"
  k := lit "A"
  entry _ := singleKeyEntry
  view _ := singleKey
  reads _ := reads_ofDict (fun _ _ => rfl) singleKey
  hid_eq _ := rfl
  hkey_eq _ := rfl
  not_superseded _ := nofun
  rotator := true
  channel := lit "general"
  chanMeta := Dict.empty.set (lit "general") singleKeyEntry
  at_channel := Dict.get?_set_self ..
  mint _ := fresh
  mint_ne := hne
  fresh_ne := hfresh
  returns := rfl

/-- A fresh key that sorts before the old one lasts. -/
theorem early_key_lasts : lit "0" < lit "A" ∧
    ∀ s, (twoDevices (lit "0") (by decide) (by decide)).Reachable s →
      (twoDevices (lit "0") (by decide) (by decide)).NeverBack s :=
  ⟨by decide, (neverBack_iff _).mpr (.inl (by decide))⟩

/-- A fresh key that sorts after the old one does not last. -/
theorem rotation_undone : ∃ s, (twoDevices (lit "B") (by decide) (by decide)).Reachable s ∧
    ¬ (twoDevices (lit "B") (by decide) (by decide)).NeverBack s := by
  obtain ⟨s, hs, hkey⟩ :=
    exists_undone (r := twoDevices (lit "B") (by decide) (by decide)) (d := false) (by decide)
      (by decide)
  exact ⟨s, hs, fun h => h true (.inl rfl) hkey⟩

end Rotation

end Quorum
