import Quorum.Order.Seats
import Quorum.Envelope.Boards
import Quorum.Envelope.Rebroadcast

/-!
# Seats of an offer

Members take seats of an offer and give them back.  A member's own device does so at once
(`takeOffer`), before the envelope has its place in the log, and is never told where that is.  So a
member who takes the last seat at the same time as another keeps it on their own device, whichever of
them is first in the log.

The records of the devices simulate the seating of names (`seating`).  If nobody takes or gives back a
seat while a refused one is on its way to them, and there is a seat for whoever takes one in between,
then all devices end with the takers that the log has (`seats_agree`).
-/

namespace Quorum

open Js

/-! ### Taking a seat -/

/-- What is sent when a seat is taken or given back. -/
def takeContent (id : Str) (taking : Bool) : Value :=
  record_ [("k", .str (lit "offer")), ("op", .str (lit "take")), ("id", .str id),
    ("taking", .bool taking)]

namespace Record

variable (record : Record) (me : Str)

def setOffers (offers : List Offer) : Record :=
  { record with board := { record.board with offers := some offers } }

/-- `takeOffer(serverId, id, taking)`. -/
def takeOffer (id : Str) (taking : Bool) : Record × List Value :=
  (record.setOffers (applyTake (record.board.offers.getD []) (.str id) me taking),
    [takeContent id taking])

end Record

def Record.offer (record : Record) (id : Str) : Option Offer :=
  (record.board.offers.getD []).find? fun o => o.id == id

/-! ### One offer -/

/-- Taking a seat changes the takers only. -/
theorem Offer.take_eq (o : Offer) (who : Str) (taking : Bool) :
    o.take who taking = { o with takers := seat o.seats o.takers who taking } := by
  unfold Offer.take seat
  cases taking with
  | false => rfl
  | true =>
    simp only [Bool.not_true, Bool.false_eq_true, if_false, if_true]
    by_cases hmem : who ∈ o.takers
    · rw [if_pos hmem, if_pos (.inl hmem)]
    · rw [if_neg hmem]
      by_cases hfull : o.seats ≤ o.takers.length
      · rw [if_pos (.inr hfull), if_pos (.inr hfull)]
      · rw [if_neg, if_neg]
        · exact not_or.mpr ⟨hmem, hfull⟩
        · rintro (hzero | hle)
          · exact hfull (hzero ▸ Nat.zero_le _)
          · exact hfull hle

/-- The offer after messages about its seats. -/
theorem foldl_take {ι : Type} (handle : ι → Str) (offer : Offer) (log : List (ι × Bool)) :
    log.foldl (fun o m => o.take (handle m.1) m.2) offer =
      { offer with takers := seated handle offer.seats offer.takers log } := by
  induction log using List.reverseRecOn with
  | nil => rfl
  | append_singleton log m ih =>
    rw [List.foldl_append, ih, seated_concat]
    exact Offer.take_eq ..

theorem find?_applyTake (list : List Offer) (id who : Str) (taking : Bool) :
    (applyTake list (.str id) who taking).find? (fun o => o.id == id) =
      (list.find? fun o => o.id == id).map (·.take who taking) := by
  have hid : ∀ o : Offer, (if (Value.str o.id).strictEq (.str id) then o.take who taking else o).id =
      o.id := fun o => apply_ite_eq Offer.id (o.take_id who taking)
  unfold applyTake
  rw [List.find?_map]
  simp only [Function.comp_def, hid]
  cases hfind : list.find? fun o => o.id == id with
  | none => rfl
  | some o =>
    have ho : o.id = id := by simpa using List.find?_some hfind
    rw [Option.map_some, Option.map_some, ho, if_pos (Value.str_strictEq.mpr rfl)]

/-! ### The envelope -/

theorem get_takeContent {id : Str} {taking : Bool} {name : String} {v : Value}
    (h : (name, v) ∈ [("k", .str (lit "offer")), ("op", .str (lit "take")), ("id", .str id),
      ("taking", .bool taking)]) : (takeContent id taking).get (lit name) = v := by
  refine get_record_ ?_ h
  simp only [List.map_cons, List.map_nil]
  decide

/-- An envelope about a seat. -/
theorem offers_applyOffer_take (env : Envelope) {id : Str} {taking : Bool}
    (hop : env.field "op" = .str (lit "take")) (hid : env.field "id" = .str id)
    (htaking : env.field "taking" = .bool taking) (board : Board) :
    (env.applyOffer board).state.offers =
      some (applyTake (board.offers.getD []) (.str id) env.sender taking) := by
  unfold Envelope.applyOffer
  rw [Act.state_read_bind]
  rw [hop, hid, htaking, if_neg (by decide), if_pos (by decide)]
  cases taking with
  | false => rfl
  | true => rfl

/-- Anybody may take a seat. -/
theorem refused_take (env : Envelope) (hkind : Kind.ofContent env.content = some .offer)
    (hop : env.content.get (lit "op") = .str (lit "take")) : env.refused = false := by
  unfold Envelope.refused adminRequirement
  rw [hkind, hop]
  rfl

/-- **What a device makes of it is what the sender's device made of it.** -/
theorem offers_apply_take (record : Record) (sender id : Str) (taking : Bool) (ctx : Ctx) :
    (Delivery.apply record ⟨sender, takeContent id taking, ctx⟩).board.offers =
      some (applyTake (record.board.offers.getD []) (.str id) sender taking) := by
  have hop : (takeContent id taking).get (lit "op") = .str (lit "take") :=
    get_takeContent (List.mem_cons_of_mem _ (List.mem_cons_self ..))
  have hid : (takeContent id taking).get (lit "id") = .str id :=
    get_takeContent (List.mem_cons_of_mem _ (List.mem_cons_of_mem _ (List.mem_cons_self ..)))
  have htaking : (takeContent id taking).get (lit "taking") = .bool taking :=
    get_takeContent (List.mem_cons_of_mem _ (List.mem_cons_of_mem _ (List.mem_cons_of_mem _
      (List.mem_cons_self ..))))
  have hkind : Kind.ofContent (takeContent id taking) = some .offer := by
    unfold Kind.ofContent
    rw [get_takeContent (List.mem_cons_self ..)]
    rfl
  let env : Envelope := ⟨record.id, sender, takeContent id taking, ctx⟩
  have hreaches : Delivery.reaches ⟨sender, takeContent id taking, ctx⟩ record.id = some .offer :=
    Delivery.reaches_eq_some.mpr ⟨refused_take env hkind hop, hkind⟩
  rw [Delivery.apply_of_reaches hreaches]
  exact offers_applyOffer_take env hop hid htaking record.board

/-! ### Devices -/

/-- Members who take seats of one offer and give them back.  Of what `takeOffer` sends, the log of the
protocol keeps whether a seat is taken (`sent_takeOffer`). -/
def takes {ι : Type} (handle : ι → Str) (id : Str) : Protocol ι Record Bool Bool Ctx where
  act i record taking := (record.takeOffer (handle i) id taking).1
  send _ _ taking := [taking]
  apply j ctx record taking := Delivery.apply record ⟨handle j, takeContent id taking, ctx⟩

theorem sent_takeOffer {ι : Type} (handle : ι → Str) (i : ι) (record : Record) (id : Str)
    (taking : Bool) : (record.takeOffer (handle i) id taking).2 =
      ((takes handle id).send i record taking).map (takeContent id) := rfl

/-- A record has an offer under an id, with these takers. -/
def Record.Offers (offer : Offer) (id : Str) (record : Record) (takers : List Str) : Prop :=
  record.offer id = some { offer with takers }

theorem Record.Offers.take {offer : Offer} {id : Str} {record record' : Record} {takers : List Str}
    (h : record.Offers offer id takers) (who : Str) (taking : Bool)
    (hoffers : record'.board.offers =
      some (applyTake (record.board.offers.getD []) (.str id) who taking)) :
    record'.Offers offer id (seat offer.seats takers who taking) := by
  unfold Offers Record.offer at h ⊢
  rw [hoffers, Option.getD_some, find?_applyTake, h, Option.map_some, Offer.take_eq]

variable {ι : Type} [DecidableEq ι]

/-- **All devices have the takers of the log** in the end, of which there are no more than seats, if
whoever takes or gives back a seat has read of all the others, or meets no taker in between whom the
log refuses, and does not find the car full there. -/
theorem seats_agree {handle : ι → Str} (hhandle : Function.Injective handle) {id : Str}
    {offer : Offer} (hnodup : offer.takers.Nodup) (hseats : offer.takers.length ≤ offer.seats)
    {s : Shared ι Record Bool} (hlog : s.log = []) (hread : ∀ i, s.read i = 0)
    (hoffer : ∀ i, (s.device i).offer id = some offer) {l : List (Shared.Action ι Bool Ctx)}
    (h : Along (takes handle id).step (Calm handle offer.seats offer.takers) s l)
    (hend : ∀ i, (l.foldl (takes handle id).step s).read i =
      (l.foldl (takes handle id).step s).log.length) (i : ι) :
    ∃ o, ((l.foldl (takes handle id).step s).device i).offer id = some o ∧
      o.takers.Nodup ∧ o.takers.length ≤ offer.seats ∧
      ∀ x, x ∈ o.takers ↔ x ∈ ((l.foldl (takes handle id).step s).log.foldl
        (fun o m => o.take (handle m.1) m.2) offer).takers := by
  -- the records simulate bare lists of takers, for which the library has the result
  let t : Shared ι (List Str) Bool := ⟨fun _ => offer.takers, s.log, s.read⟩
  have hsim : Simulates (Record.Offers offer id) s t := ⟨hoffer, rfl, rfl⟩
  have hact : ∀ j record takers taking, Record.Offers offer id record takers →
      Record.Offers offer id ((takes handle id).act j record taking)
        ((seating handle offer.seats Ctx).act j takers taking) :=
    fun j _ _ taking hrec => hrec.take (handle j) taking rfl
  have happly : ∀ j ctx record takers taking, Record.Offers offer id record takers →
      Record.Offers offer id ((takes handle id).apply j ctx record taking)
        ((seating handle offer.seats Ctx).apply j ctx takers taking) :=
    fun j _ _ _ taking hrec => hrec.take (handle j) taking (offers_apply_take ..)
  obtain ⟨hsim', halong⟩ :=
    hsim.run hact (fun _ _ _ _ _ => rfl) happly (fun _ _ _ hst hcalm => hcalm.of_simulates hst) h
  have hreads := hend i
  rw [hsim'.log, hsim'.read] at hreads
  obtain ⟨hdistinct, hmem⟩ :=
    Along.seated_iff hhandle hnodup hseats halong hlog hread (fun _ => rfl) hreads
  refine ⟨_, hsim'.device i, hdistinct, ?_, fun x => ?_⟩
  · rw [length_eq_of_mem_iff hdistinct (nodup_seated hnodup) hmem]
    exact length_seated_le hseats
  · rw [foldl_take, hsim'.log]
    exact hmem x

/-! ### Two passengers and one seat -/

/-- A ride of carol with one seat. -/
def ride : Offer where
  id := lit "o1"
  text := lit "to the lake"
  note := none
  seats := 1
  ts := 0
  author := lit "carol"
  takers := []

/-- The devices of two members who both have the ride. -/
def bothRide : Shared Bool Record Bool where
  device := fun _ => { emptyCircle with board := { emptyCircle.board with offers := some [ride] } }
  log := []
  read := fun _ => 0

/-- Whose devices these are. -/
def passenger (i : Bool) : Str := lit (if i then "bob" else "alice")

/-- The takers of the ride on a device after some actions. -/
def takersAfter (actions : List (Shared.Action Bool Bool Ctx)) (i : Bool) : Option (List Str) :=
  (((actions.foldl (takes passenger ride.id).step bothRide).device i).offer ride.id).map Offer.takers

/-- Bob takes a seat after having read that alice has one. -/
def oneByOne : List (Shared.Action Bool Bool Ctx) :=
  [.act false true, .read true plainCtx, .act true true, .read false plainCtx,
    .read false plainCtx, .read true plainCtx]

theorem last_seat_in_turn : ∃ o,
    ((oneByOne.foldl (takes passenger ride.id).step bothRide).device true).offer ride.id = some o ∧
      o.takers.Nodup ∧ o.takers.length ≤ ride.seats ∧
      ∀ x, x ∈ o.takers ↔ x ∈ ((oneByOne.foldl (takes passenger ride.id).step bothRide).log.foldl
        (fun o m => o.take (passenger m.1) m.2) ride).takers := by
  refine seats_agree (by decide) (by decide) (by decide) rfl (fun _ => rfl) (fun _ => rfl) ?_ ?_ true
  · refine ⟨.inl ?_, trivial, .inl ?_, trivial, trivial, trivial, trivial⟩
    · intro m hm
      cases hm
    · intro m hm
      cases hm
  · decide +kernel

/-- Both take the last seat before having read of the other, then everything is read. -/
def atOnce : List (Shared.Action Bool Bool Ctx) :=
  [.act false true, .act true true, .read false plainCtx, .read false plainCtx,
    .read true plainCtx, .read true plainCtx]

/-- Each of them has the last seat on their own device: what was first in the log is not seen on the
device of bob. -/
theorem last_seat_twice :
    (∀ i, (atOnce.foldl (takes passenger ride.id).step bothRide).read i =
      (atOnce.foldl (takes passenger ride.id).step bothRide).log.length) ∧
    takersAfter atOnce false = some [lit "alice"] ∧ takersAfter atOnce true = some [lit "bob"] ∧
    ((atOnce.foldl (takes passenger ride.id).step bothRide).log.foldl
      (fun o m => o.take (passenger m.1) m.2) ride).takers = [lit "alice"] := by
  decide +kernel

end Quorum
