import Quorum.ChanKeys.Keeps
import Quorum.History.Steps

/-!
# Numbers and the logs that issued them

The working copy of a channel is one, and its numbers are of the log whose pages were folded into
it. When an envelope gives the channel another log, the working copy stays, and so do its numbers:
the next page is asked of the new log after a number of the old one, and a line that is deleted
takes an entry of the new log with it that has nothing to do with it (`number_of_another_log`).

As long as no envelope names a log with a lower id once a page has been asked for, every number in
a request was issued by the log the request names, and what is erased under it is the entry of the
line that was deleted (`numbers_of_their_log`).  Pages may be under way in any number, the other
logs are drained meanwhile, and entries come, expire and are deleted at any time.
-/

namespace Quorum.History

open Js

variable {place : Place}

/-! ### What is asked of a run, and what it keeps -/

def Bound.seq : Bound → ℕ
  | .after n => n
  | .before n => n

/-- A bound that names no entry: the whole log. -/
def Bound.isOpen (b : Bound) : Prop := b = .after 0 ∨ b = .before MAX_SAFE_INTEGER

/-- The number in a request was issued by the log that the request names.  For a bound that means
that all entries folded into the working copy were issued by that log, and for a line to erase, that
the entry under its number is the one the line was read from. -/
def Request.Sound (place : Place) (issued folded : List Stored) : Request → Prop
  | .page hid bound =>
    bound.isOpen ∨
      (∃ s ∈ folded, s.seq = bound.seq) ∧ ∀ s ∈ folded, s ∈ issued ∧ s.hid = hid
  | .drain hid n => n = 0 ∨ ∃ s ∈ issued, s.hid = hid ∧ s.seq = n
  | .redact hid n line =>
    (∃ s ∈ issued, s.hid = hid ∧ s.seq = n) ∧
      ∀ s ∈ issued, s.hid = hid → s.seq = n → s.Wrote place line

namespace Room

/-- Every number in a request was issued by the log that the request names. -/
def Sound (place : Place) (r : Room) : Prop :=
  ∀ q ∈ r.requests, q.Sound place r.store.issued r.folded

/-- No page of the channel has been asked for. -/
def Untouched (r : Room) : Prop := r.fetching.isEmpty = true ∧ r.folded.isEmpty = true

/-- The channel has a log, and neither its settings nor those that come in name one with a lower
id. -/
def HasLowest (r : Room) (theirs : Value) : Prop :=
  (logId r.entry).any fun hid => namesNoneBelow hid r.entry && namesNoneBelow hid theirs

/-- No envelope brings a channel another log once a page has been asked for. -/
def Settled (r : Room) : Action → Prop
  | .chanset theirs => r.HasLowest theirs ∨ r.Untouched
  | .rebroadcast theirs => r.HasLowest theirs ∨ r.Untouched
  | .adopt entry => logId entry = logId r.entry ∨ r.Untouched
  | _ => True

instance Settled.decidable (r : Room) (a : Action) : Decidable (r.Settled a) := by
  cases a <;> unfold Settled HasLowest Untouched <;> infer_instance

end Room

/-- The entries of a page that was served are of the log that was asked for. -/
def PageOf (issued : List Stored) (hid : Str) (page : List Stored) : Prop :=
  ∀ s ∈ page, s ∈ issued ∧ s.hid = hid

/-- A drain reads on from a number of the log it reads. -/
structure Drain.Valid (issued : List Stored) (d : Drain) : Prop where
  after : d.after = 0 ∨ ∃ s ∈ issued, s.hid = d.hid ∧ s.seq = d.after
  reply : ∀ page, d.reply = some page → PageOf issued d.hid page

theorem Drain.after_next {alts : List Value} {d : Drain}
    (h : Drain.next alts = some d) : d.after = 0 := by
  induction alts with
  | nil => cases h
  | cons alt alts ih =>
    unfold Drain.next at h
    split at h
    · cases h
      rfl
    · exact ih h

theorem logId_eq_some {entry : Value} {hid : Str} :
    logId entry = some hid ↔ entry.get (lit "hid") = .str hid ∧ hid ≠ [] := by
  unfold logId
  split
  · next hid' heq =>
    rw [heq]
    by_cases hnil : hid' = []
    · rw [if_pos hnil, Value.str.injEq]
      exact ⟨nofun, fun h => absurd (h.1.symm.trans hnil) h.2⟩
    · rw [if_neg hnil, Option.some.injEq, Value.str.injEq]
      exact ⟨fun h => ⟨h, h ▸ hnil⟩, And.left⟩
  · next hne => exact ⟨nofun, fun h => absurd h.1 (hne hid)⟩

/-- Minting keys leaves a log that is there. -/
theorem logId_ensureChannelKeys {entry : Value} {old : Str} (h : logId entry = some old)
    (hid hkey : Str) : logId (ensureChannelKeys entry hid hkey) = some old := by
  unfold ensureChannelKeys
  split
  · exact h
  · obtain ⟨hget, hne⟩ := logId_eq_some.mp h
    refine logId_eq_some.mpr ⟨?_, hne⟩
    rw [Value.get_ofDict, Dict.get?_setAll_of_mem (by simp; decide) (List.mem_cons_self ..), hget]
    rfl

/-- A merge leaves a channel the log with the lowest id. -/
theorem Room.HasLowest.logId_mergedEntry {r : Room} {theirs : Value} (h : r.HasLowest theirs)
    (mineWins : Bool) : logId (mergedEntry r.entry theirs mineWins) = logId r.entry := by
  obtain ⟨hid, hh, hlow⟩ := (Option.any_eq_true _ _).mp h
  unfold mergedEntry
  split
  · next merged hm =>
    obtain ⟨hget, hne⟩ := logId_eq_some.mp hh
    obtain ⟨hmine, htheirs⟩ := Bool.and_eq_true_iff.mp hlow
    rw [hh]
    exact logId_eq_some.mpr ⟨mergeChanKeys_keeps_log hm hget hne hmine htheirs, hne⟩
  · rfl

/-- All numbers in use are of the channel's log, and were issued by it. -/
structure Inv (place : Place) (r : Room) : Prop where
  fetching : ∀ f ∈ r.fetching, logId r.entry = some f.hid ∧
    ∀ page, f.reply = some page → PageOf r.store.issued f.hid page.1
  folded : ∀ s ∈ r.folded, s ∈ r.store.issued ∧ logId r.entry = some s.hid
  draining : ∀ d ∈ r.draining, d.Valid r.store.issued
  requests : r.Sound place

namespace Inv

variable {r : Room}

theorem start (place : Place) (entry : Value) : Inv place (Room.start entry) where
  fetching _ hf := absurd hf List.not_mem_nil
  folded _ hs := absurd hs List.not_mem_nil
  draining _ hd := absurd hd List.not_mem_nil
  requests _ hq := absurd hq List.not_mem_nil

/-- The channel keeps its log, or none of its numbers is in use. -/
theorem withEntry (h : Inv place r) {entry : Value}
    (hk : logId entry = logId r.entry ∨ r.Untouched) : Inv place { r with entry } := by
  refine ⟨fun f hm => ?_, fun s hm => ?_, h.draining, h.requests⟩
  · rcases hk with hid | ⟨hf, -⟩
    · exact ⟨hid.trans (h.fetching f hm).1, (h.fetching f hm).2⟩
    · rw [show r.fetching = [] from List.isEmpty_iff.mp hf] at hm
      cases hm
  · rcases hk with hid | ⟨-, hs⟩
    · exact ⟨(h.folded s hm).1, hid.trans (h.folded s hm).2⟩
    · rw [show r.folded = [] from List.isEmpty_iff.mp hs] at hm
      cases hm

theorem append (h : Inv place r) (hvalid : r.store.Valid) (hid author : Str) (entry : Value) :
    Inv place { r with store := r.store.append hid author entry } := by
  have hstore := hvalid.append hid author entry
  have hsub : ∀ s ∈ r.store.issued, s ∈ (r.store.append hid author entry).issued := fun s hs =>
    List.mem_append_left _ hs
  have hpage : ∀ {hid page}, PageOf r.store.issued hid page →
      PageOf (r.store.append _ author entry).issued hid page := fun hp s hs =>
    ⟨hsub s (hp s hs).1, (hp s hs).2⟩
  refine ⟨fun f hm => ⟨(h.fetching f hm).1, fun page hp => hpage ((h.fetching f hm).2 page hp)⟩,
    fun s hm => ⟨hsub s (h.folded s hm).1, (h.folded s hm).2⟩,
    fun d hm => ⟨?_, fun page hp => hpage ((h.draining d hm).reply page hp)⟩, fun q hm => ?_⟩
  · exact (h.draining d hm).after.imp_right fun ⟨s, hs, heq⟩ => ⟨s, hsub s hs, heq⟩
  · have hq := h.requests q hm
    cases q with
    | page hid bound =>
      exact hq.imp_right fun ⟨hseq, hall⟩ =>
        ⟨hseq, fun s hs => ⟨hsub s (hall s hs).1, (hall s hs).2⟩⟩
    | drain hid n => exact hq.imp_right fun ⟨s, hs, heq⟩ => ⟨s, hsub s hs, heq⟩
    | redact hid n line =>
      obtain ⟨⟨s, hs, hh, hn⟩, hall⟩ := hq
      refine ⟨⟨s, hsub s hs, hh, hn⟩, fun s' hs' hh' hn' => ?_⟩
      -- The number is taken, so the new entry has another one.
      obtain rfl := hstore.unique s' hs' s (hsub s hs) (hh'.trans hh.symm) (hn'.trans hn.symm)
      exact hall s' hs hh hn

theorem ask (h : Inv place r) {d : Drain}
    (hd : d.after = 0 ∨ ∃ s ∈ r.store.issued, s.hid = d.hid ∧ s.seq = d.after) :
    Inv place (r.ask d) :=
  ⟨h.fetching, h.folded,
    List.forall_mem_append.mpr ⟨h.draining, List.forall_mem_singleton.mpr ⟨hd, nofun⟩⟩,
    List.forall_mem_append.mpr ⟨h.requests, List.forall_mem_singleton.mpr hd⟩⟩

theorem nextLog (h : Inv place r) (alts : List Value) : Inv place (r.nextLog alts) := by
  unfold Room.nextLog
  split
  · next d hd => exact h.ask (.inl (Drain.after_next hd))
  · exact h

theorem drainAlternateLogs (h : Inv place r) : Inv place r.drainAlternateLogs := by
  unfold Room.drainAlternateLogs
  split
  · exact h.nextLog _
  · exact h

/-- A page is asked for with a bound that is open or a number of the working copy. -/
theorem fetchPage (h : Inv place r) {bound : Bound} (first : Bool)
    (hb : bound.isOpen ∨ ∃ s ∈ r.folded, s.seq = bound.seq) :
    Inv place (r.fetchPage bound first) := by
  have hdrain : Inv place (if first then r.drainAlternateLogs else r) := by
    split
    · exact h.drainAlternateLogs
    · exact h
  unfold Room.fetchPage
  split
  · next hid hh =>
    split
    · have hsound : (Request.page hid bound).Sound place r.store.issued r.folded :=
        hb.imp_right fun hseq => ⟨hseq, fun s hs =>
          ⟨(h.folded s hs).1, Option.some.inj ((h.folded s hs).2.symm.trans hh)⟩⟩
      exact ⟨List.forall_mem_append.mpr ⟨h.fetching, List.forall_mem_singleton.mpr ⟨hh, nofun⟩⟩,
        h.folded, h.draining,
        List.forall_mem_append.mpr ⟨h.requests, List.forall_mem_singleton.mpr hsound⟩⟩
    · exact hdrain
  · exact hdrain

/-- A page of the channel's log is folded in. -/
theorem withPage (h : Inv place r) {hid : Str} {page : List Stored} (log : ChannelLog)
    (hh : logId r.entry = some hid) (hp : PageOf r.store.issued hid page) :
    Inv place { r with log, folded := r.folded ++ page } := by
  refine ⟨h.fetching, List.forall_mem_append.mpr ⟨h.folded, fun s hs => ?_⟩, h.draining,
    fun q hm => ?_⟩
  · exact ⟨(hp s hs).1, hh.trans (congrArg some (hp s hs).2.symm)⟩
  · have hq := h.requests q hm
    cases q with
    | page hid' bound =>
      refine hq.imp_right fun ⟨⟨s, hs, hn⟩, hall⟩ => ⟨⟨s, List.mem_append_left _ hs, hn⟩,
        List.forall_mem_append.mpr ⟨hall, fun s' hs' => ?_⟩⟩
      -- The request and the page name the one log the channel has.
      have heq : s.hid = hid := Option.some.inj ((h.folded s hs).2.symm.trans hh)
      exact ⟨(hp s' hs').1, (hp s' hs').2.trans (heq.symm.trans (hall s hs).2)⟩
    | drain hid' n => exact hq
    | redact hid' n line => exact hq

theorem foldPage (h : Inv place r) {f : Fetch} {page : List Stored × Bool}
    (hh : logId r.entry = some f.hid) (hp : PageOf r.store.issued f.hid page.1)
    (opened : Stored → Option Verdict) : Inv place (r.foldPage place f page opened) := by
  have hadded (log : ChannelLog) := h.withPage log hh hp
  unfold Room.foldPage
  dsimp only
  split
  · exact hadded _
  · exact hadded _
  · split <;> split
    · exact (hadded _).drainAlternateLogs
    · exact (hadded _).drainAlternateLogs
    · exact hadded _
    · exact hadded _

theorem foldDrained (h : Inv place r) {d : Drain} {page : List Stored}
    (hp : PageOf r.store.issued d.hid page) (opened : Stored → Option Verdict) :
    Inv place (r.foldDrained place d page opened) := by
  have hadded (log : ChannelLog) : Inv place { r with log } :=
    ⟨h.fetching, h.folded, h.draining, h.requests⟩
  unfold Room.foldDrained
  split
  · exact h.nextLog _
  · next last hlast =>
    dsimp only
    split
    · exact hadded _
    · split
      -- The last number of the page is where the drain goes on.
      · have hlast := hp last (List.mem_of_getLast? hlast)
        exact (hadded _).ask (.inr ⟨last, hlast.1, hlast.2, rfl⟩)
      · exact (hadded _).nextLog _

/-- Keys are minted for a channel that has no log, and then none of its numbers is in use. -/
theorem keeps_ensureChannelKeys (h : Inv place r) (hid hkey : Str) :
    logId (ensureChannelKeys r.entry hid hkey) = logId r.entry ∨ r.Untouched := by
  cases hh : logId r.entry with
  | some old => exact .inl (logId_ensureChannelKeys hh hid hkey)
  | none =>
    refine .inr ⟨List.isEmpty_iff.mpr (List.eq_nil_iff_forall_not_mem.mpr fun f hf => ?_),
      List.isEmpty_iff.mpr (List.eq_nil_iff_forall_not_mem.mpr fun s hs => ?_)⟩
    · cases hh.symm.trans (h.fetching f hf).1
    · cases hh.symm.trans (h.folded s hs).2

theorem appendLog (h : Inv place r) (entry : Value) (hid hkey : Str) :
    Inv place (r.appendLog place entry hid hkey) :=
  have hkept := h.withEntry (h.keeps_ensureChannelKeys hid hkey)
  ⟨hkept.fetching, hkept.folded, hkept.draining, hkept.requests⟩

theorem deleteMessage (h : Inv place r) (me : Str) (line : Message) (at_ : Number)
    (hid hkey : Str) : Inv place (r.deleteMessage place me line at_ hid hkey) := by
  unfold Room.deleteMessage
  split
  · exact h
  · have happ := h.appendLog (Room.deletion me line at_) hid hkey
    exact ⟨happ.fetching, happ.folded, happ.draining, happ.requests⟩

theorem redactLine (h : Inv place r) (hvalid : r.store.Valid) {line : Message}
    (hl : Numbers place r.folded line) : Inv place (r.redactLine line) := by
  unfold Room.redactLine
  split
  · next hid n hh hn =>
    refine ⟨h.fetching, h.folded, h.draining,
      List.forall_mem_append.mpr ⟨h.requests, List.forall_mem_singleton.mpr ?_⟩⟩
    obtain ⟨s, hs, hsn, hw⟩ := hl n hn
    have hsh : s.hid = hid := Option.some.inj ((h.folded s hs).2.symm.trans hh)
    have hissued := (h.folded s hs).1
    refine ⟨⟨s, hissued, hsh, hsn⟩, fun s' hs' hh' hn' => ?_⟩
    -- A number is issued once, so it is the entry the line was read from.
    rw [hvalid.unique s' hs' s hissued (hh'.trans hsh.symm) (hn'.trans hsn.symm)]
    exact hw
  · exact h

theorem withFetching (h : Inv place r) {fetching : List Fetch}
    (hf : ∀ f ∈ fetching, logId r.entry = some f.hid ∧
      ∀ page, f.reply = some page → PageOf r.store.issued f.hid page.1) :
    Inv place { r with fetching } :=
  ⟨hf, h.folded, h.draining, h.requests⟩

theorem withDraining (h : Inv place r) {draining : List Drain}
    (hd : ∀ d ∈ draining, d.Valid r.store.issued) : Inv place { r with draining } :=
  ⟨h.fetching, h.folded, hd, h.requests⟩

theorem fetched (h : Inv place r) (i : ℕ) :
    Inv place { r with fetching := r.fetching.eraseIdx i } :=
  h.withFetching fun f hm => h.fetching f (List.mem_of_mem_eraseIdx hm)

theorem drained (h : Inv place r) (i : ℕ) :
    Inv place { r with draining := r.draining.eraseIdx i } :=
  h.withDraining fun d hm => h.draining d (List.mem_of_mem_eraseIdx hm)

theorem loadMessages (h : Inv place r) : Inv place r.loadMessages := by
  unfold Room.loadMessages
  split
  · exact h
  · have hloaded : Inv place { r with loaded := true } :=
      ⟨h.fetching, h.folded, h.draining, h.requests⟩
    exact hloaded.fetchPage true (.inl (.inr rfl))

theorem loadOlderMessages (h : Inv place r) (hn : Numbering place r) :
    Inv place r.loadOlderMessages := by
  unfold Room.loadOlderMessages
  split
  · exact h
  · refine h.fetchPage false ?_
    cases ho : r.log.oldest with
    | none => exact .inl (.inr rfl)
    | some n => exact .inr (hn.numbered.oldest n ho)

theorem catchUp (h : Inv place r) (hn : Numbering place r) : Inv place r.catchUp := by
  unfold Room.catchUp
  split
  · exact h.fetchPage false (hn.numbered.newest.imp (fun hz => .inl (congrArg Bound.after hz)) id)
  · exact h

/-- A step that leaves the log of the channel leaves every number with its log. -/
theorem step (h : Inv place r) (hvalid : r.store.Valid) (hn : Numbering place r) (me : Str)
    {a : Action} (ha : r.Settled a) : Inv place (r.step place me a) := by
  cases a with
  | append hid author entry => exact h.append hvalid hid author entry
  | chanset theirs => exact h.withEntry (ha.imp_left fun hl => hl.logId_mergedEntry false)
  | rebroadcast theirs => exact h.withEntry (ha.imp_left fun hl => hl.logId_mergedEntry true)
  | adopt entry => exact h.withEntry ha
  | load => exact h.loadMessages
  | older => exact h.loadOlderMessages hn
  | catchUp => exact h.catchUp hn
  | serve i =>
    dsimp only [Room.step]
    split
    · next f hf =>
      refine h.withFetching fun f' hm => ?_
      rcases List.mem_or_eq_of_mem_set hm with hm | rfl
      · exact h.fetching f' hm
      · refine ⟨(h.fetching f (List.mem_of_getElem? hf)).1, fun page hp s hs => ?_⟩
        rw [← Option.some.inj hp] at hs
        exact hvalid.page hs
    · exact h
  | fold i opened =>
    dsimp only [Room.step]
    split
    · next f hf =>
      split
      · next page hp =>
        obtain ⟨hh, hpage⟩ := h.fetching f (List.mem_of_getElem? hf)
        exact (h.fetched i).foldPage hh (hpage page hp) opened
      · exact h
    · exact h
  | fail i =>
    dsimp only [Room.step]
    split
    · split
      · exact (h.fetched i).drainAlternateLogs
      · exact h.fetched i
    · exact h
  | serveDrain i =>
    dsimp only [Room.step]
    split
    · next d hd =>
      refine h.withDraining fun d' hm => ?_
      rcases List.mem_or_eq_of_mem_set hm with hm | rfl
      · exact h.draining d' hm
      · refine ⟨(h.draining d (List.mem_of_getElem? hd)).after, fun page hp s hs => ?_⟩
        rw [← Option.some.inj hp] at hs
        exact hvalid.page hs
    · exact h
  | foldDrain i opened =>
    dsimp only [Room.step]
    split
    · next d hd =>
      split
      · next page hp =>
        have hpage := (h.draining d (List.mem_of_getElem? hd)).reply page hp
        exact (h.drained i).foldDrained hpage opened
      · exact h
    · exact h
  | failDrain i =>
    dsimp only [Room.step]
    split
    · exact (h.drained i).nextLog _
    · exact h
  | send entry hid hkey => exact h.appendLog entry hid hkey
  | accept i =>
    dsimp only [Room.step]
    split
    · next hid entry hi =>
      have happended := h.append hvalid hid me entry
      exact ⟨happended.fetching, happended.folded, happended.draining, happended.requests⟩
    · exact h
  | delete i at_ hid hkey =>
    dsimp only [Room.step]
    split
    · exact h.deleteMessage me _ at_ hid hkey
    · exact h
  | redact i =>
    dsimp only [Room.step]
    split
    · next line hl =>
      have herased : Inv place { r with deleting := r.deleting.eraseIdx i } :=
        ⟨h.fetching, h.folded, h.draining, h.requests⟩
      exact herased.redactLine hvalid (hn.deleting line (List.mem_of_getElem? hl))
    · exact h
  -- What the relay drops and what is shown are in no request.
  | render | erase i admin =>
    dsimp only [Room.step]
    split <;> exact ⟨h.fetching, h.folded, h.draining, h.requests⟩
  | _ => exact ⟨h.fetching, h.folded, h.draining, h.requests⟩

/-- Every run that is settled. -/
theorem run {entry : Value} {me : Str} {l : List Action}
    (h : Along (Room.step place me) Room.Settled (Room.start entry) l) :
    Inv place ((Room.start entry).run place me l) :=
  (h.preserves (P := fun r : Room => r.store.Valid ∧ Numbering place r ∧ Inv place r)
    (fun r a ⟨hvalid, hn, hr⟩ ha =>
      ⟨hvalid.change (r.change_step a), hn.step a, hr.step hvalid hn me ha⟩)
    ⟨Room.valid_start entry, .run place me entry [], .start place entry⟩).2.2

end Inv

/-- **Every number is used against the log that issued it**, in every run in which no envelope names
a log with a lower id once a page has been asked for: bounds and numbers to erase are of the
log that the request names, all numbers of the working copy are of that log, and the entry under a
number to erase is the one the deleted line was read from. -/
theorem numbers_of_their_log (place : Place) (me : Str) (entry : Value) (l : List Action)
    (h : Along (Room.step place me) Room.Settled (Room.start entry) l) :
    ((Room.start entry).run place me l).Sound place := (Inv.run h).requests

def channelOf (hid : Str) : Value :=
  .obj 0 [(lit "hid", .str hid), (lit "hkey", .str (lit "key"))]

/-- The log and the number that a request names, and of a line to erase its time. -/
def Request.named : Request → Str × ℕ × Option Number
  | .page hid bound => (hid, bound.seq, none)
  | .drain hid n => (hid, n, none)
  | .redact hid n line => (hid, n, some line.ts)

/-- Two lines of the log `m` are read, an envelope gives the channel the log `a`, which has two
lines of its own, and the device catches up and deletes the first line it shows. -/
def logChanges : List Action :=
  [.append (lit "m") (lit "alice") (chatEntry (lit "alice") (.ofRat 5) (lit "oops")),
    .append (lit "m") (lit "bob") (chatEntry (lit "bob") (.ofRat 6) (lit "what")),
    .append (lit "a") (lit "alice") (chatEntry (lit "alice") (.ofRat 7) (lit "keep")),
    .append (lit "a") (lit "bob") (chatEntry (lit "bob") (.ofRat 8) (lit "news")),
    .load, .serve 0, .fold 0 fun _ => some .signed, .chanset (channelOf (lit "a")),
    .catchUp, .serve 0, .fold 0 fun _ => some .signed, .render,
    .delete 0 (.ofRat 9) [] [], .accept 0, .redact 0, .erase 0 false]

/-- The new log is asked for what follows the last line of the old one, so none of its lines are
read, and the line at 5 is erased under a number that in the new log is that of the line at 7. -/
theorem number_of_another_log :
    let r := (Room.start (channelOf (lit "m"))).run ⟨[], []⟩ (lit "alice") logChanges
    r.requests.map Request.named =
        [(lit "m", MAX_SAFE_INTEGER, none), (lit "a", 2, none), (lit "a", 1, some (.ofRat 5))] ∧
      r.shown.map (·.ts) = [.ofRat 5, .ofRat 6] ∧
      r.store.entries.map (fun s => (s.hid, s.seq)) =
        [(lit "m", 1), (lit "m", 2), (lit "a", 2), (lit "a", 3)] ∧
      ¬r.Sound ⟨[], []⟩ := by
  intro r
  have hnamed : r.requests.map Request.named =
      [(lit "m", MAX_SAFE_INTEGER, none), (lit "a", 2, none), (lit "a", 1, some (.ofRat 5))] := by
    decide +kernel
  have hissued : ∃ s ∈ r.store.issued, s.hid = lit "a" ∧ s.seq = 1 ∧
      ∀ auth ∈ [Verdict.signed, .unsigned, .unknown, .forged],
        (contentOf ⟨[], []⟩ (s.item auth)).all (·.ts = .ofRat 7) := by decide +kernel
  refine ⟨hnamed, by decide +kernel, by decide +kernel, fun hsound => ?_⟩
  have hmem : (lit "a", 1, some (Number.ofRat 5)) ∈ r.requests.map Request.named := by
    rw [hnamed]
    simp
  obtain ⟨q, hq, hqn⟩ := List.mem_map.mp hmem
  have hqs := hsound q hq
  cases q with
  | page hid bound | drain hid n => simp [Request.named] at hqn
  | redact hid n line =>
    obtain ⟨rfl, rfl, hts⟩ : hid = lit "a" ∧ n = 1 ∧ line.ts = .ofRat 5 := by
      simpa [Request.named] using hqn
    obtain ⟨s, hs, hh, hn, hcontent⟩ := hissued
    obtain ⟨auth, m, hm, -, hmts⟩ := hqs.2 s hs hh hn
    have h7 := hcontent auth (by cases auth <;> simp)
    rw [hm, Option.all_some, hmts, hts] at h7
    exact absurd h7 (by decide +kernel)

/-- The settings are announced again and another log comes in that does not replace the first; it is
drained, the device catches up, and a line of its own goes. -/
def logStays : List Action :=
  [.append (lit "a") (lit "alice") (chatEntry (lit "alice") (.ofRat 5) (lit "oops")),
    .append (lit "m") (lit "bob") (chatEntry (lit "bob") (.ofRat 6) (lit "news")),
    .chanset (channelOf (lit "m")), .load, .serve 0, .fold 0 fun _ => some .signed,
    .serveDrain 0, .foldDrain 0 fun _ => some .signed, .serveDrain 0,
    .foldDrain 0 fun _ => some .signed, .rebroadcast (channelOf (lit "a")), .catchUp, .serve 0,
    .fold 0 fun _ => some .signed, .render, .delete 0 (.ofRat 9) [] [], .accept 0, .redact 0,
    .erase 0 false]

theorem logStays_sound :
    let r := (Room.start (channelOf (lit "a"))).run ⟨[], []⟩ (lit "alice") logStays
    r.requests.map Request.named =
        [(lit "a", MAX_SAFE_INTEGER, none), (lit "m", 0, none), (lit "m", 1, none),
          (lit "a", 1, none), (lit "a", 1, some (.ofRat 5))] ∧
      r.Sound ⟨[], []⟩ :=
  ⟨by decide +kernel, numbers_of_their_log _ _ _ logStays (by decide +kernel)⟩

end Quorum.History
