import Quorum.Mls.Snapshot

/-!
# Joining by a link

A link leads to a GroupInfo that is parked on the relay.  The device joins by an external commit,
writes its snapshot and sends the commit (`redeemPendingInvite`).  A commit that is refused is
rolled back: the group is forgotten.

The rollback reaches the client in memory and not the snapshot, so the group is there again after a
reload, and the link cannot be opened a second time (`Device.has_reload`).  Failures before the
snapshot is written leave nothing behind (`saved_redeem`).
-/

namespace Quorum.Mls

open Js (Dict insertNew)
open Store (Bytes)

variable {mls : OpenMls}

/-! ### The device -/

/-- The client in memory and its snapshot on disk, the groups that the controller takes for live,
and the circles it shows, with whether each is read-only. -/
structure Device (mls : OpenMls) where
  client : ChatClient mls
  saved : Bytes
  mlsGroups : List String
  servers : Dict String Bool

/-- A circle is shown as live. -/
def Device.live (d : Device mls) (id : String) : Bool := d.servers.get? id == some false

/-- How a redemption goes outside the client: what the relay replies, what the link's key makes of
the blob, whether the disk takes the snapshot, what becomes of the commit, whether the worker
forgets, and how the rest goes once the commit is accepted. -/
structure Answers where
  redeem : Except String (String × Bytes)
  decrypt : Bytes → Except String Bytes
  save : Except String Unit
  send : Except String ℕ
  forgets : Bool
  finish : Except String Unit

/-- What the user reads if the commit is refused. -/
def refusal (message : String) : String :=
  if "epoch conflict".toList <:+: message.toList.map Char.toLower then
    "the circle changed while you were joining — open the invite link again"
  else message

/-- `redeemPendingInvite()`. -/
def redeemPendingInvite (serde : Serde) (a : Answers) (d : Device mls) :
    Except String Unit × Device mls :=
  match a.redeem with
  | .error e => (.error ("invite not usable: " ++ e), d)
  | .ok (group, payload) =>
    if d.live group then (.ok (), d)
    else
      match a.decrypt payload with
      | .error e => (.error e, d)
      | .ok info =>
        match joinByExternalCommit info d.client with
        | (.error e, client) => (.error e.message, { d with client })
        | (.ok (group, _), client) =>
          match a.save with
          | .error e => (.error e, { d with client })
          | .ok () =>
            let saved := exportState serde client
            match a.send with
            | .error e =>
              -- the snapshot that the worker returns is dropped
              let client := if a.forgets then (forgetGroup group client).2 else client
              (.error (refusal e), { d with client, saved })
            | .ok _ =>
              (a.finish,
                { client, saved
                  mlsGroups := insertNew d.mlsGroups group
                  servers := d.servers.set group false })

/-- `adoptCircles(servers)` on a device that shows no circles yet, for the ids of circles. -/
def adoptCircles (mlsGroups parked : List String) : Dict String Bool :=
  parked.foldl (fun servers id =>
    if id = "" ∨ servers.has id then servers else servers.set id !mlsGroups.contains id) Dict.empty

/-- The app is loaded again: `boot()` from the snapshot, and the circles that are parked on the
relay. -/
def Device.reload (serde : Serde) (parked : List String) (d : Device mls) :
    Except CoreError (Device mls) := do
  let client ← importState mls serde d.saved
  return {
    client
    saved := exportState serde client
    mlsGroups := groupIds client
    servers := adoptCircles (groupIds client) parked }

/-! ### What a failure leaves behind -/

/-- After the app is loaded again the circle has no group and is not live, and to open the link
again is the same as to open it for the first time. -/
def LeavesNothing (serde : Serde) (parked : List String) (id : String)
    (before after : Device mls) : Prop :=
  ∃ d first, after.reload serde parked = .ok d ∧ before.reload serde parked = .ok first ∧
    d.client.groups.has id = false ∧ d.live id = false ∧
    ∀ a, (redeemPendingInvite serde a d).1 = (redeemPendingInvite serde a first).1

/-- The link leads to a circle, if to any. -/
def Answers.LeadsTo (a : Answers) (d : Device mls) (id : String) : Prop :=
  ∀ group payload info, a.redeem = .ok (group, payload) → a.decrypt payload = .ok info →
    ∀ id' commit client, joinByExternalCommit info d.client = (.ok (id', commit), client) → id' = id

/-- The external commit was made and the snapshot written, and then the commit was not accepted. -/
def Answers.Unsent (a : Answers) (d : Device mls) : Prop :=
  ∃ group payload info, a.redeem = .ok (group, payload) ∧ d.live group = false ∧
    a.decrypt payload = .ok info ∧ (joinByExternalCommit info d.client).1.isOk = true ∧
    a.save = .ok () ∧ a.send.isOk = false

section

variable {serde : Serde} {parked : List String} {id : String} {c : ChatClient mls}

theorem has_of_loadGroups {values : Values} {ids : List String}
    {groups groups' : Dict String mls.Group} (h : loadGroups values ids groups = .ok groups')
    (hid : id ∈ ids ∨ groups.has id = true) :
    groups'.has id = true := by
  induction ids generalizing groups with
  | nil =>
    cases h
    exact hid.resolve_left (List.not_mem_nil)
  | cons id' ids ih =>
    unfold loadGroups at h
    split at h
    · cases h
    · cases h
    · refine ih h ?_
      by_cases heq : id' = id
      · rw [heq, Dict.has_eq_isSome, Dict.get?_set_self]
        exact .inr rfl
      · rw [Dict.has_eq_isSome, Dict.get?_set_of_ne _ _ heq, ← Dict.has_eq_isSome]
        exact hid.imp_left fun hid => (List.mem_cons.mp hid).resolve_left (Ne.symm heq)

theorem mem_groupIds : id ∈ groupIds c ↔ c.groups.has id = true := by
  rw [groupIds, List.mem_mergeSort, Dict.has_iff_mem_keys]

/-- A group that is in the snapshot is there again. -/
theorem has_of_importState {c' : ChatClient mls} (hfits : Fits serde c)
    (h : importState mls serde (exportState serde c) = .ok c') (hid : c.groups.has id = true) :
    c'.groups.has id = true := by
  rw [importState_exportState serde hfits] at h
  cases hgroups : loadGroups c.values (groupIds c) Dict.empty with
  | error e =>
    rw [hgroups] at h
    cases h
  | ok groups =>
    rw [hgroups] at h
    cases h
    exact has_of_loadGroups hgroups (.inl (mem_groupIds.mpr hid))

theorem live_adoptCircles {mlsGroups : List String}
    (h : (adoptCircles mlsGroups parked).get? id = some false) : id ∈ mlsGroups := by
  refine foldl_preserves (P := fun servers : Dict String Bool =>
    ∀ k, servers.get? k = some false → k ∈ mlsGroups) (fun servers p hservers k hk => ?_)
    parked (fun k hk => by cases hk) id h
  split at hk
  · exact hservers k hk
  · rcases Dict.get?_set_cases hk with ⟨rfl, hk⟩ | ⟨-, hk⟩
    · exact List.contains_iff_mem.mp (by simpa using hk)
    · exact hservers k hk

/-- A device that was just loaded shows a circle as live only if it has a group for it. -/
theorem Device.live_reload {d d' : Device mls} (h : d.reload serde parked = .ok d')
    (hid : d'.client.groups.has id = false) : d'.live id = false := by
  unfold reload at h
  cases hclient : importState mls serde d.saved with
  | error e =>
    rw [hclient] at h
    cases h
  | ok client =>
    rw [hclient] at h
    cases h
    refine Bool.not_eq_true _ ▸ fun hlive => ?_
    have hmem := mem_groupIds.mp (live_adoptCircles (beq_iff_eq.mp hlive))
    exact Bool.false_ne_true (hid.symm.trans hmem)

theorem joinByExternalCommit_has {info commit : Bytes} {c' : ChatClient mls}
    (h : joinByExternalCommit info c = (.ok (id, commit), c')) : c'.groups.has id = true := by
  unfold joinByExternalCommit at h
  split at h
  · cases h
  · dsimp only at h
    split at h
    · cases h
    · split at h
      · cases h
      · cases h
        rw [Dict.has_eq_isSome, Dict.get?_set_self]
        rfl

/-- **A commit that is not accepted leaves the group in the snapshot.**  Every other failure leaves
the snapshot as it was. -/
theorem saved_redeem {a : Answers} {d : Device mls} {e : String}
    (hfails : (redeemPendingInvite serde a d).1 = .error e) (hfinish : a.finish = .ok ()) :
    (¬a.Unsent d ∧ (redeemPendingInvite serde a d).2.saved = d.saved) ∨
      a.Unsent d ∧ ∃ group payload info id commit client, a.redeem = .ok (group, payload) ∧
        a.decrypt payload = .ok info ∧
        joinByExternalCommit info d.client = (.ok (id, commit), client) ∧
        (redeemPendingInvite serde a d).2.saved = exportState serde client := by
  unfold redeemPendingInvite at hfails ⊢
  cases hredeem : a.redeem with
  | error e' =>
    refine .inl ⟨?_, rfl⟩
    rintro ⟨group, payload, info, h, -⟩
    cases hredeem.symm.trans h
  | ok reply =>
    obtain ⟨group, payload⟩ := reply
    rw [hredeem] at hfails
    dsimp only at hfails ⊢
    cases hlive : d.live group with
    | true =>
      rw [hlive] at hfails
      cases hfails
    | false =>
      rw [hlive] at hfails
      cases hdecrypt : a.decrypt payload with
      | error e' =>
        refine .inl ⟨?_, rfl⟩
        rintro ⟨_, _, info, h, -, h', -⟩
        cases hredeem.symm.trans h
        cases hdecrypt.symm.trans h'
      | ok info =>
        rw [hdecrypt] at hfails
        dsimp only at hfails ⊢
        rcases hjoin : joinByExternalCommit info d.client with ⟨_ | ⟨id, commit⟩, client⟩
        · refine .inl ⟨?_, rfl⟩
          rintro ⟨_, _, _, h, -, h', hok, -⟩
          cases hredeem.symm.trans h
          cases hdecrypt.symm.trans h'
          rw [hjoin] at hok
          cases hok
        · rw [hjoin] at hfails
          cases hsave : a.save with
          | error e' =>
            refine .inl ⟨?_, rfl⟩
            rintro ⟨_, _, _, -, -, -, -, h, -⟩
            cases hsave.symm.trans h
          | ok u =>
            rw [hsave] at hfails
            cases hsend : a.send with
            | ok seq =>
              rw [hsend, hfinish] at hfails
              cases hfails
            | error e' =>
              -- the snapshot is written before the commit is sent
              refine .inr ⟨?_, group, payload, info, id, commit, client, rfl, hdecrypt, hjoin, rfl⟩
              refine ⟨group, payload, info, hredeem, hlive, hdecrypt, ?_, hsave, ?_⟩
              · rw [hjoin]
                rfl
              · rw [hsend]
                rfl

/-- A group in the snapshot is there after a reload. -/
theorem Device.has_reload {d d' : Device mls} (h : d.reload serde parked = .ok d')
    (hsaved : d.saved = exportState serde c) (hfits : Fits serde c)
    (hid : c.groups.has id = true) : d'.client.groups.has id = true := by
  unfold reload at h
  rw [hsaved] at h
  cases hclient : importState mls serde (exportState serde c) with
  | error e =>
    rw [hclient] at h
    cases h
  | ok client =>
    rw [hclient] at h
    cases h
    exact has_of_importState hfits hclient hid

theorem Device.reload_congr {d d' : Device mls} (h : d.saved = d'.saved) :
    d.reload serde parked = d'.reload serde parked := by
  unfold reload
  rw [h]

/-- **A failed join leaves nothing behind if and only if it fails before the snapshot is written.**
-/
theorem failed_join_leaves_nothing_iff {d first : Device mls}
    (hfirst : d.reload serde parked = .ok first) (hnew : first.client.groups.has id = false)
    {a : Answers} {e : String} (hfails : (redeemPendingInvite serde a d).1 = .error e)
    (hfinish : a.finish = .ok ()) (hid : a.LeadsTo d id)
    (hfits : ∀ group payload info, a.redeem = .ok (group, payload) → a.decrypt payload = .ok info →
      Fits serde (joinByExternalCommit info d.client).2) :
    LeavesNothing serde parked id d (redeemPendingInvite serde a d).2 ↔ ¬a.Unsent d := by
  rcases saved_redeem hfails hfinish with ⟨hnot, hsaved⟩ |
    ⟨hunsent, group, payload, info, id', commit, client, hredeem, hdecrypt, hjoin, hsaved⟩
  · refine iff_of_true ?_ hnot
    refine ⟨first, first, (Device.reload_congr hsaved).trans hfirst, hfirst, hnew, ?_, fun _ => rfl⟩
    exact Device.live_reload hfirst hnew
  · refine iff_of_false ?_ (not_not.mpr hunsent)
    rintro ⟨d', first', hreload, -, hgone, -⟩
    obtain rfl := hid group payload info hredeem hdecrypt id' commit client hjoin
    have hfits' := hfits group payload info hredeem hdecrypt
    rw [hjoin] at hfits'
    have hhas := Device.has_reload hreload hsaved hfits' (joinByExternalCommit_has hjoin)
    exact Bool.false_ne_true (hgone.symm.trans hhas)

end

/-! ### A link that is opened twice -/

/-- A device without groups, whose snapshot is written. -/
def freshDevice (serde : Serde) : Device epochsOnly where
  client := newDevice
  saved := exportState serde newDevice
  mlsGroups := []
  servers := .empty

/-- The link leads to the club, and the relay takes or refuses the commit. -/
def toTheClub (redeem : Except String (String × Bytes)) (send : Except String ℕ) : Answers where
  redeem
  decrypt payload := .ok payload
  save := .ok ()
  send
  forgets := true
  finish := .ok ()

/-- The link, once redeemed. -/
def clubLink : Except String (String × Bytes) := .ok ("club", asBytes "club")

/-- The client after its external commit. -/
def inTheClub : ChatClient epochsOnly := (joinByExternalCommit (asBytes "club") newDevice).2

/-- The lengths of both clients fit. -/
theorem exists_serde_fits : ∃ serde : Serde, Fits serde newDevice ∧ Fits serde inTheClub := by
  obtain ⟨serde, hserde⟩ := exists_serde [headerOf newDevice, headerOf inTheClub]
  have hlength : ∀ h ∈ [headerOf newDevice, headerOf inTheClub],
      (serde.toVec h).length < 256 ^ 4 := fun h hh => (hserde h hh).trans (by decide)
  refine ⟨serde, ⟨hlength _ (by simp), by decide +kernel, fun p hp => by cases hp⟩,
    ⟨hlength _ (by simp), by decide +kernel, by decide +kernel⟩⟩

/-- A snapshot that is read back as a client. -/
theorem Device.reload_of_import {serde : Serde} {d : Device mls} {c : ChatClient mls}
    (h : importState mls serde d.saved = .ok c) (parked : List String) :
    d.reload serde parked = .ok
      { client := c
        saved := exportState serde c
        mlsGroups := groupIds c
        servers := adoptCircles (groupIds c) parked } := by
  unfold reload
  rw [h]
  rfl

theorem groupIds_inTheClub : groupIds inTheClub = ["club"] := List.mergeSort_singleton _

theorem import_newDevice {serde : Serde} (hfits : Fits serde newDevice) :
    importState epochsOnly serde (exportState serde newDevice) = .ok newDevice := by
  have hids : groupIds newDevice = [] := List.mergeSort_nil
  rw [importState_exportState serde hfits, hids]
  rfl

theorem import_inTheClub {serde : Serde} (hfits : Fits serde inTheClub) :
    importState epochsOnly serde (exportState serde inTheClub) = .ok inTheClub := by
  rw [importState_exportState serde hfits, groupIds_inTheClub]
  rfl

/-- A link that is used up leaves nothing behind. -/
theorem used_up_link_leaves_nothing : ∃ serde, LeavesNothing serde ["club"] "club"
    (freshDevice serde)
    (redeemPendingInvite serde (toTheClub (.error "used up") (.ok 1)) (freshDevice serde)).2 := by
  obtain ⟨serde, hfits, -⟩ := exists_serde_fits
  have hfirst := Device.reload_of_import (d := freshDevice serde) (import_newDevice hfits) ["club"]
  refine ⟨serde, (failed_join_leaves_nothing_iff hfirst rfl rfl rfl (fun _ _ _ h => by cases h)
    fun _ _ _ h => by cases h).mpr ?_⟩
  rintro ⟨_, _, _, h, -⟩
  cases h

/-- **A join that is refused is there after a reload.**  The circle is shown as live, and if it is
not among the parked ones, then a link that the relay would take now is refused. -/
theorem refused_join_stays : ∃ serde,
    (redeemPendingInvite serde (toTheClub clubLink (.ok 1)) (freshDevice serde)).1 = .ok () ∧
    ∃ after, redeemPendingInvite serde (toTheClub clubLink (.error "epoch conflict"))
        (freshDevice serde) =
          (.error "the circle changed while you were joining — open the invite link again", after) ∧
      ¬LeavesNothing serde ["club"] "club" (freshDevice serde) after ∧
      (∃ d, after.reload serde ["club"] = .ok d ∧ d.client.groups.has "club" = true ∧
        d.live "club" = true) ∧
      ∃ d, after.reload serde [] = .ok d ∧
        (redeemPendingInvite serde (toTheClub clubLink (.ok 1)) d).1 =
          .error "already in group club" := by
  obtain ⟨serde, -, hfits⟩ := exists_serde_fits
  have himport := import_inTheClub hfits
  have hlive : (adoptCircles (groupIds inTheClub) ["club"]).get? "club" = some false := by
    rw [groupIds_inTheClub]
    decide +kernel
  let after : Device epochsOnly := (redeemPendingInvite serde
    (toTheClub clubLink (.error "epoch conflict")) (freshDevice serde)).2
  have hreload := Device.reload_of_import (d := after) himport
  have hagain : (redeemPendingInvite serde (toTheClub clubLink (.ok 1))
      ⟨inTheClub, exportState serde inTheClub, groupIds inTheClub, .empty⟩).1 =
        .error "already in group club" := rfl
  have hrefusal : refusal "epoch conflict" =
      "the circle changed while you were joining — open the invite link again" := by
    decide +kernel
  refine ⟨serde, rfl, after, Prod.ext (congrArg Except.error hrefusal) rfl, ?_,
    ⟨_, hreload ["club"], rfl, beq_iff_eq.mpr hlive⟩, _, hreload [], hagain⟩
  rintro ⟨d, first, hd, -, hgone, -⟩
  have hhas : d.client.groups.has "club" = true := Device.has_reload hd rfl hfits rfl
  exact Bool.false_ne_true (hgone.symm.trans hhas)

end Quorum.Mls
