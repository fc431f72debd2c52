import Quorum.History.Issued

/-!
# Erasing what was deleted

`deleteMessage` writes a tombstone and then asks the relay to erase the entry of the line, so that
somebody who joins later cannot read it with the room key.  It names the entry by the number that
the line carries, and asks for nothing when the line carries none.

A line that was sent in this session carries none: on screen is the local echo, and the number that
the relay answers the append with is not written into it.  Such a line reads as deleted everywhere
while its entry stays in the log (`echo_stays_in_log`).

An entry goes, and for good, exactly when the line was rendered with the number of that entry and
the channel has its log when the request is made; and a line has a number only once a page with an
entry of its author and time was folded in (`erased_iff_numbered`).  While the channel keeps its
log and no two entries are of one author and time, a line with any number will do
(`erased_iff_seq`).
-/

namespace Quorum.History

open Js

/-- What `deleteMessage` asks the relay to erase for a line, if anything. -/
def Room.erasure (r : Room) (line : Message) : Option (Str × ℕ) :=
  match logId r.entry, line.seq with
  | some hid, some seq => some (hid, seq)
  | _, _ => none

theorem Room.erasure_eq_some {r : Room} {line : Message} {hid : Str} {seq : ℕ} :
    r.erasure line = some (hid, seq) ↔ line.seq = some seq ∧ logId r.entry = some hid := by
  unfold erasure
  split
  · next hh hs =>
    rw [hh, hs]
    simp [and_comm]
  · next hno => exact ⟨nofun, fun ⟨hseq, hhid⟩ => absurd hseq (hno hid seq hhid)⟩

theorem Room.redacting_redactLine (r : Room) (line : Message) :
    (r.redactLine line).redacting = r.redacting ++ (r.erasure line).toList := by
  unfold redactLine erasure
  cases logId r.entry with
  | none => exact (List.append_nil _).symm
  | some hid =>
    cases line.seq with
    | none => exact (List.append_nil _).symm
    | some seq => rfl

/-- A `deleteMessage` from its beginning in a room to where the relay has answered its last request:
the user points at a line of theirs, and anything may happen until the tombstone is in the log, and
then until the entry is erased. -/
structure Deletion (place : Place) (me : Str) (r : Room) (line : Message) where
  i : ℕ
  shown : r.shown[i]? = some line
  mine : line.sender = me
  at_ : Number
  hid : Str
  hkey : Str
  between : List Action
  j : ℕ
  waits : ((r.step place me (.delete i at_ hid hkey)).run place me between).deleting[j]? = some line
  meanwhile : List Action
  k : ℕ
  admin : Bool

namespace Deletion

variable {place : Place} {me : Str} {r : Room} {line : Message}

/-- The room in which the deletion asks for the entry to be erased. -/
def asked (d : Deletion place me r line) : Room :=
  (r.step place me (.delete d.i d.at_ d.hid d.hkey)).run place me d.between

/-- The room in which the relay answers. -/
def served (d : Deletion place me r line) : Room :=
  (d.asked.step place me (.redact d.j)).run place me d.meanwhile

/-- The request of the deletion, if it makes one, is the one that is answered. -/
def Answered (d : Deletion place me r line) : Prop :=
  ∀ q, d.asked.erasure line = some q → d.served.redacting[d.k]? = some q

def done (d : Deletion place me r line) : Room :=
  match d.asked.erasure line with
  | some _ => d.served.step place me (.erase d.k d.admin)
  | none => d.served

theorem entries_done (d : Deletion place me r line) (hd : d.Answered) {s : Stored}
    (hs : s ∈ d.served.store.entries) (hauthor : s.author = me) :
    s ∉ d.done.store.entries ↔ d.asked.erasure line = some (s.hid, s.seq) := by
  unfold done
  cases hq : d.asked.erasure line with
  | none => exact ⟨fun hgone => absurd hs hgone, nofun⟩
  | some q =>
    obtain ⟨hid, seq⟩ := q
    dsimp only [Room.step]
    rw [hd _ hq]
    simp only [Store.redact, List.mem_filter, hs, true_and, hauthor, or_true, and_true,
      decide_eq_true_eq, Decidable.not_not, Option.some.injEq, Prod.mk.injEq]
    exact ⟨fun ⟨hh, hn⟩ => ⟨hh.symm, hn.symm⟩, fun ⟨hh, hn⟩ => ⟨hh.symm, hn.symm⟩⟩

theorem valid_served (d : Deletion place me r line) (h : r.store.Valid) :
    d.served.store.Valid := by
  have hasked : d.asked.store.Valid := Room.valid_run place me (h.change (r.change_step _)) _
  exact Room.valid_run place me (hasked.change (d.asked.change_step _)) _

theorem change_done (d : Deletion place me r line) : d.served.store.Change d.done.store := by
  unfold done
  split
  · exact d.served.change_step _
  · exact .same

/-- An entry that a deletion takes from the log does not come back. -/
theorem erased_iff (d : Deletion place me r line) (hr : r.store.Valid) (hd : d.Answered) {s : Stored}
    (hs : s ∈ d.served.store.entries) (hauthor : s.author = me) :
    (∀ later, s ∉ (d.done.run place me later).store.entries) ↔
      line.seq = some s.seq ∧ logId d.asked.entry = some s.hid := by
  rw [← Room.erasure_eq_some, ← d.entries_done hd hs hauthor]
  have hvalid := d.valid_served hr
  constructor
  · intro hgone
    exact hgone []
  · intro hgone later
    have hissued : s ∈ d.done.store.issued := d.change_done.issued (hvalid.entries s hs)
    exact Room.absent_run place me (hvalid.change d.change_done) hissued hgone later

end Deletion

/-- **A deletion erases the entry under the number of its line**, in every run and with anything
happening meanwhile.  An entry of this user that the relay holds until it answers goes, and is in no
later state, exactly when the line was rendered with its number and the channel has its log when the
request is made.  A line has such a number only if an entry of its author and time was folded in
from a page before. -/
theorem erased_iff_numbered (place : Place) (me : Str) (entry : Value) (l : List Action)
    {line : Message} (d : Deletion place me ((Room.start entry).run place me l) line)
    (hd : d.Answered) {s : Stored} (hs : s ∈ d.served.store.entries) (hauthor : s.author = me) :
    ((∀ later, s ∉ (d.done.run place me later).store.entries) ↔
        line.seq = some s.seq ∧ logId d.asked.entry = some s.hid) ∧
      (line.seq = some s.seq →
        ∃ s' ∈ ((Room.start entry).run place me l).folded,
          s'.seq = s.seq ∧ s'.Wrote place line) := by
  have hline := (Numbering.run place me entry l).shown line (List.mem_of_getElem? d.shown)
  have hvalid := Room.valid_run place me (Room.valid_start entry) l
  exact ⟨d.erased_iff hvalid hd hs hauthor, hline s.seq⟩

/-- The number of a line is that of its entry, as long as the channel keeps its log and no other
entry of the log is of the line's author and time: then a deletion erases the entry of every line
that has a number. -/
theorem erased_iff_seq (place : Place) (me : Str) (entry : Value) (l : List Action)
    {line : Message} (d : Deletion place me ((Room.start entry).run place me l) line)
    (hsettled : Along (Room.step place me) Room.Settled (Room.start entry)
      (l ++ .delete d.i d.at_ d.hid d.hkey :: d.between))
    (hd : d.Answered) {s : Stored} (hs : s ∈ d.served.store.entries) (hauthor : s.author = me)
    (hlog : logId d.asked.entry = some s.hid)
    (honly : ∀ s' ∈ d.asked.store.issued, s'.hid = s.hid → s'.Wrote place line → s' = s) :
    (∀ later, s ∉ (d.done.run place me later).store.entries) ↔ line.seq.isSome := by
  have hasked : d.asked =
      (Room.start entry).run place me (l ++ .delete d.i d.at_ d.hid d.hkey :: d.between) := by
    change _ = List.foldl _ _ _
    rw [List.foldl_append]
    rfl
  have hinv : Inv place d.asked := hasked ▸ Inv.run hsettled
  have hn : Numbering place d.asked := hasked ▸ Numbering.run place me entry _
  have hnumber : line.seq.isSome → line.seq = some s.seq := by
    intro hseq
    obtain ⟨n, hseqn⟩ := Option.isSome_iff_exists.mp hseq
    obtain ⟨s', hs', hs'n, hw⟩ := hn.deleting line (List.mem_of_getElem? d.waits) n hseqn
    obtain ⟨hissued, hlog'⟩ := hinv.folded s' hs'
    have hhid : s'.hid = s.hid := Option.some.inj (hlog'.symm.trans hlog)
    rw [hseqn, ← hs'n, honly s' hissued hhid hw]
  rw [d.erased_iff (Room.valid_run place me (Room.valid_start entry) l) hd hs hauthor]
  exact ⟨fun h => h.1 ▸ rfl, fun h => ⟨hnumber h, hlog⟩⟩

/-! ### A line of this session -/

namespace Deletion

variable {place : Place} {me : Str} {r : Room} {line : Message} {i : ℕ}

/-- The tombstone is in the log and the line waits for its entry to be erased. -/
theorem atOnce_begins (hshown : r.shown[i]? = some line) (hmine : line.sender = me)
    (hnone : r.deleting = []) (at_ : Number) :
    let asked := (r.step place me (.delete i at_ [] [])).run place me [.accept 0]
    asked.deleting = [line] ∧ asked.redacting = r.redacting := by
  have hdelete : (r.step place me (.delete i at_ [] [])).deleting = [line] ∧
      (r.step place me (.delete i at_ [] [])).redacting = r.redacting := by
    dsimp only [Room.step]
    rw [hshown]
    dsimp only [Room.deleteMessage]
    rw [if_neg (not_not_intro hmine)]
    exact ⟨congrArg (· ++ [line]) hnone, rfl⟩
  rw [← hdelete.1, ← hdelete.2]
  generalize r.step place me (.delete i at_ [] []) = r'
  dsimp only [Room.run, List.foldl_cons, List.foldl_nil, Room.step]
  split <;> exact ⟨rfl, rfl⟩

/-- A deletion during which nothing else happens. -/
def atOnce (hshown : r.shown[i]? = some line) (hmine : line.sender = me)
    (hnone : r.deleting = []) (at_ : Number) : Deletion place me r line where
  i
  shown := hshown
  mine := hmine
  at_
  hid := []
  hkey := []
  between := [.accept 0]
  j := 0
  waits := by rw [(atOnce_begins hshown hmine hnone at_).1]; rfl
  meanwhile := []
  k := r.redacting.length
  admin := false

theorem atOnce_answered (hshown : r.shown[i]? = some line) (hmine : line.sender = me)
    (hnone : r.deleting = []) (at_ : Number) :
    (atOnce hshown hmine hnone at_ : Deletion place me r line).Answered := by
  intro q hq
  set d : Deletion place me r line := atOnce hshown hmine hnone at_ with hd
  have hbegins : d.asked.deleting = [line] ∧ d.asked.redacting = r.redacting :=
    atOnce_begins hshown hmine hnone at_
  have hserved : d.served.redacting = r.redacting ++ [q] := by
    change (d.asked.step place me (.redact 0)).redacting = _
    dsimp only [Room.step]
    rw [hbegins.1]
    dsimp only [List.getElem?_cons_zero]
    rw [Room.redacting_redactLine]
    change d.asked.redacting ++ (d.asked.erasure line).toList = _
    rw [hbegins.2, hq]
    rfl
  rw [hserved]
  exact List.getElem?_concat_length

end Deletion

/-- A channel is opened, and a line sent to it. -/
def sendsLine : List Action :=
  [.load, .serve 0, .fold 0 fun _ => some .signed,
    .send (chatEntry (lit "alice") (.ofRat 5) (lit "oops")) [] [], .accept 0]

/-- The channel as it is rendered then, and as it is rendered when the device catches up first. -/
def echoRoom : Room :=
  (Room.start (channelOf (lit "m"))).run ⟨[], []⟩ (lit "alice") (sendsLine ++ [.render])

def readBack : List Action :=
  sendsLine ++ [.catchUp, .serve 0, .fold 0 fun _ => some .signed, .render]

def readRoom : Room := (Room.start (channelOf (lit "m"))).run ⟨[], []⟩ (lit "alice") readBack

/-- The first line is of this user, and they are not deleting anything yet. -/
def showsOwn (r : Room) : Bool :=
  (r.shown[0]?.any fun line => line.sender = lit "alice") && r.deleting.isEmpty

theorem showsOwn_shown {r : Room} (h : showsOwn r) : r.shown[0]?.isSome := by
  obtain ⟨line, hline, -⟩ := (Option.any_eq_true _ _).mp (Bool.and_eq_true_iff.mp h).1
  exact hline ▸ rfl

def firstLine (r : Room) (h : showsOwn r) : Message := r.shown[0]?.get (showsOwn_shown h)

theorem firstLine_shown {r : Room} (h : showsOwn r) : r.shown[0]? = some (firstLine r h) :=
  (Option.some_get _).symm

theorem firstLine_mine {r : Room} (h : showsOwn r) : (firstLine r h).sender = lit "alice" := by
  obtain ⟨line, hline, hmine⟩ := (Option.any_eq_true _ _).mp (Bool.and_eq_true_iff.mp h).1
  obtain rfl := Option.some.inj ((firstLine_shown h).symm.trans hline)
  exact of_decide_eq_true hmine

theorem showsOwn_idle {r : Room} (h : showsOwn r) : r.deleting = [] :=
  List.isEmpty_iff.mp (Bool.and_eq_true_iff.mp h).2

/-- The user deletes the first line they see. -/
def deletesFirst (r : Room) (h : showsOwn r) :
    Deletion ⟨[], []⟩ (lit "alice") r (firstLine r h) :=
  .atOnce (firstLine_shown h) (firstLine_mine h) (showsOwn_idle h) (.ofRat 9)

theorem deletesFirst_answered {r : Room} (h : showsOwn r) : (deletesFirst r h).Answered :=
  Deletion.atOnce_answered (firstLine_shown h) (firstLine_mine h) (showsOwn_idle h) (.ofRat 9)

theorem echoRoom_shows : showsOwn echoRoom := by decide +kernel

/-- The sender deletes the line they have just sent: all requests succeed, and the entry of the line
is still in the channel's log. -/
theorem echo_stays_in_log :
    ∃ (line : Message) (d : Deletion ⟨[], []⟩ (lit "alice") echoRoom line), d.Answered ∧
      ∃ s ∈ d.done.store.entries, s.author = lit "alice" ∧ s.Wrote ⟨[], []⟩ line ∧
        logId d.done.entry = some s.hid := by
  have hstays : ∃ s ∈ (deletesFirst echoRoom echoRoom_shows).done.store.entries,
      s.author = lit "alice" ∧
      ((contentOf ⟨[], []⟩ (s.item .signed)).any fun m =>
        m.sender = (firstLine echoRoom echoRoom_shows).sender ∧
          m.ts = (firstLine echoRoom echoRoom_shows).ts) ∧
      logId (deletesFirst echoRoom echoRoom_shows).done.entry = some s.hid := by
    decide +kernel
  obtain ⟨s, hs, hauthor, hwrote, hlog⟩ := hstays
  obtain ⟨m, hm, hsame⟩ := (Option.any_eq_true _ _).mp hwrote
  exact ⟨_, deletesFirst echoRoom echoRoom_shows, deletesFirst_answered _, s, hs, hauthor,
    ⟨.signed, m, hm, of_decide_eq_true hsame⟩, hlog⟩

theorem readRoom_shows : showsOwn readRoom := by decide +kernel

/-- When the device has caught up before the line was rendered, the entry goes. -/
theorem read_back_erased :
    ∃ (line : Message) (d : Deletion ⟨[], []⟩ (lit "alice") readRoom line), d.Answered ∧
      ∃ s ∈ d.served.store.entries, s.author = lit "alice" ∧
        ∀ later, s ∉ (d.done.run ⟨[], []⟩ (lit "alice") later).store.entries := by
  have hheld : ∃ s ∈ (deletesFirst readRoom readRoom_shows).served.store.entries,
      s.author = lit "alice" ∧ (firstLine readRoom readRoom_shows).seq = some s.seq ∧
      logId (deletesFirst readRoom readRoom_shows).asked.entry = some s.hid := by
    decide +kernel
  obtain ⟨s, hs, hauthor, hseq, hlog⟩ := hheld
  have herased := erased_iff_numbered _ _ _ readBack (deletesFirst readRoom readRoom_shows)
    (deletesFirst_answered _) hs hauthor
  exact ⟨_, deletesFirst readRoom readRoom_shows, deletesFirst_answered _, s, hs, hauthor,
    herased.1.mpr ⟨hseq, hlog⟩⟩

end Quorum.History
