import Quorum.Envelope

/-!
# What an envelope leaves alone

An envelope that is refused, or that the reducer does not know, changes nothing.  Every other one
runs the reducer of its kind (`apply_cases`), and that reducer changes only the part of the record
it works on: the ledger is written by `quorum`, `threshold` and `meta` envelopes
(`ledger_applyKind`), the rooms by those about rooms (`rooms_applyKind`).
-/

namespace Quorum

open Js

def Delivery.envelope (e : Delivery) (server : Str) : Envelope :=
  { server, sender := e.sender, content := e.content, ctx := e.ctx }

/-- The reducer that a delivery reaches, if it passes the gate. -/
def Delivery.reaches (e : Delivery) (server : Str) : Option Kind :=
  if (e.envelope server).refused then none else Kind.ofContent e.content

theorem Delivery.reaches_eq_some {e : Delivery} {server : Str} {kind : Kind} :
    e.reaches server = some kind ↔
      (e.envelope server).refused = false ∧ Kind.ofContent e.content = some kind := by
  unfold Delivery.reaches
  cases (e.envelope server).refused <;> simp

/-- **What an envelope does**: what the reducer it reaches does, or nothing. -/
theorem Delivery.apply_eq (record : Record) (e : Delivery) :
    e.apply record =
      match e.reaches record.id with
      | some kind => ((e.envelope record.id).applyKind kind record).state
      | none => record := by
  change ((if (e.envelope record.id).refused then pure ()
    else if e.content.isNullish then Act.throw Error.typeError
    else match Kind.ofContent e.content with
      | some kind => (e.envelope record.id).applyKind kind
      | none => pure () : Act Effect Record Unit) record).state = _
  unfold Delivery.reaches
  cases (e.envelope record.id).refused with
  | true => rfl
  | false =>
    cases hn : e.content.isNullish with
    | true =>
      -- no field can be read off null, so there is no kind either
      have hk : Kind.ofContent e.content = none := by
        cases hc : e.content with
        | undefined => rfl
        | null => rfl
        | _ => rw [hc] at hn; cases hn
      rw [hk]
      rfl
    | false => cases Kind.ofContent e.content <;> rfl

theorem Delivery.apply_cases (record : Record) (e : Delivery) :
    e.apply record = record ∨ ∃ kind, Kind.ofContent e.content = some kind ∧
      (e.envelope record.id).refused = false ∧
      e.apply record = ((e.envelope record.id).applyKind kind record).state := by
  rw [e.apply_eq]
  cases hr : e.reaches record.id with
  | none => exact .inl rfl
  | some kind =>
    obtain ⟨hrefused, hkind⟩ := Delivery.reaches_eq_some.mp hr
    exact .inr ⟨kind, hkind, hrefused, rfl⟩

/-- A reducer that is reached is applied. -/
theorem Delivery.apply_of_reaches {record : Record} {e : Delivery} {kind : Kind}
    (h : e.reaches record.id = some kind) :
    e.apply record = ((e.envelope record.id).applyKind kind record).state := by
  rw [e.apply_eq, h]

/-! ### Reducers that only have effects -/

/-- Code that leaves the state alone. -/
def Quiet {σ α : Type} (x : Act Effect σ α) : Prop := Act.Moves Eq x

namespace Quiet

variable {σ α β : Type}

instance : IsTrans σ Eq := ⟨fun _ _ _ => Eq.trans⟩

theorem bind {x : Act Effect σ α} {f : α → Act Effect σ β} (hx : Quiet x)
    (hf : ∀ a, Quiet (f a)) : Quiet (x >>= f) := Act.moves_bind hx hf

theorem state_bind {x : Act Effect σ α} {f : α → Act Effect σ β} (hf : ∀ a, Quiet (f a)) (s : σ) :
    ((x >>= f) s).state = (x s).state := by
  rw [Act.state_bind]
  cases (x s).result with
  | error e => rfl
  | ok a => exact (hf a _).symm

theorem lift_bind {x : Except Error α} {f : α → Act Effect σ β} (hf : ∀ a, Quiet (f a)) :
    Quiet (Act.lift x >>= f) := bind (Act.moves_lift x) hf

theorem emit_bind {e : Effect} {f : Unit → Act Effect σ β} (hf : ∀ a, Quiet (f a)) :
    Quiet (Act.emit e >>= f) := bind (Act.moves_emit e) hf

theorem emit (e : Effect) : Quiet (Act.emit e : Act Effect σ Unit) := Act.moves_emit e

theorem pure (a : α) : Quiet (Pure.pure a : Act Effect σ α) := Act.moves_pure a

variable (env : Envelope)

theorem applyReact : Quiet (env.applyReact : Act Effect σ Unit) := by
  refine lift_bind fun _ => ?_
  dsimp only
  split
  · exact pure ()
  · refine lift_bind fun _ => ?_
    split
    · exact lift_bind fun _ => lift_bind fun _ => lift_bind fun _ => emit_bind fun _ => emit _
    · exact pure ()

theorem applyEdit : Quiet (env.applyEdit : Act Effect σ Unit) := by
  refine lift_bind fun _ => lift_bind fun _ => ?_
  split
  · exact lift_bind fun _ => lift_bind fun _ => emit_bind fun _ => emit _
  · exact pure ()

theorem applyDel : Quiet (env.applyDel : Act Effect σ Unit) := by
  refine lift_bind fun _ => ?_
  split
  · exact lift_bind fun _ => lift_bind fun _ => emit_bind fun _ => emit _
  · exact pure ()

theorem applyRole : Quiet (env.applyRole : Act Effect σ Unit) := by
  exact lift_bind fun _ => emit_bind fun _ => emit _

end Quiet

/-! ### Frames -/

/-- The kinds that change nothing in the record. -/
def Kind.quiet : Kind → Bool
  | .pres | .want | .type | .react | .edit | .del | .role => true
  | _ => false

/-- The kinds whose reducer works on the rooms. -/
def Kind.onRooms : Kind → Bool
  | .chat | .game | .file | .chanset | .chan | .vchan | .chanRen | .chanDel | .vchanRen
  | .vchanDel => true
  | _ => false

theorem applyKind_quiet (env : Envelope) {kind : Kind} (h : kind.quiet = true) (record : Record) :
    (env.applyKind kind record).state = record := by
  have hquiet : Quiet (env.applyKind kind) := by
    refine Quiet.bind Act.moves_read fun _ => ?_
    cases kind with
    | pres | want => exact Quiet.lift_bind fun _ => Quiet.emit _
    | type => exact Quiet.emit _
    | react => exact Quiet.applyReact env
    | edit => exact Quiet.applyEdit env
    | del => exact Quiet.applyDel env
    | role => exact Quiet.applyRole env
    | _ => cases h
  exact (hquiet record).symm

/-- **The ledger is written by three kinds only.** -/
theorem ledger_applyKind (env : Envelope) {kind : Kind} (hq : kind ≠ .quorum)
    (ht : kind ≠ .threshold) (hm : kind ≠ .meta_) (record : Record) :
    (env.applyKind kind record).state.ledger = record.ledger := by
  cases hquiet : kind.quiet with
  | true => rw [applyKind_quiet env hquiet]
  | false =>
    cases kind with
    | quorum => exact absurd rfl hq
    | threshold => exact absurd rfl ht
    | meta_ => exact absurd rfl hm
    | pres | want | type | react | edit | del | role => cases hquiet
    | _ => rfl

/-- **The rooms are written by the kinds about rooms, and by rebroadcasts.** -/
theorem rooms_applyKind (env : Envelope) {kind : Kind} (hr : kind.onRooms = false)
    (hm : kind ≠ .meta_) (record : Record) :
    (env.applyKind kind record).state.rooms = record.rooms := by
  cases hquiet : kind.quiet with
  | true => rw [applyKind_quiet env hquiet]
  | false =>
    cases kind with
    | meta_ => exact absurd rfl hm
    | pres | want | type | react | edit | del | role => cases hquiet
    | rsvp | overview | notice | offer | quorum | threshold => rfl
    | _ => cases hr

/-! ### Rebroadcasts that fill gaps -/

/-- A device that is not catching up fills the gaps of its record. -/
theorem Envelope.applyMeta_of_not_pending (env : Envelope) {record : Record}
    (h : record.pendingMetaSync = false) :
    (env.applyMeta record).state = (env.fillMeta record.memberCount
      { record with name := (env.field "name").orElse record.name }).state := by
  unfold applyMeta
  rw [Act.state_update_bind, Act.state_read_bind, if_neg (by rw [h]; decide)]
  rfl

/-- What every part of it keeps, the whole keeps. -/
theorem Envelope.moves_fillMeta {R : Record → Record → Prop} [IsTrans Record R] {env : Envelope}
    {n : ℕ} (hrooms : ∀ x ∈ [env.fillRooms, env.fillChanMeta], Act.Moves R (Record.onRooms x))
    (hboard : ∀ x ∈ [env.fillOverview, env.fillNotices, env.fillOffers, env.fillRsvps],
      Act.Moves R (Record.onBoard x))
    (hledger : ∀ x ∈ [env.fillProposals, env.fillThreshold n], Act.Moves R (Record.onLedger x)) :
    Act.Moves R (env.fillMeta n) :=
  Act.moves_bind (hrooms _ (by simp)) fun _ => Act.moves_bind (hboard _ (by simp)) fun _ =>
  Act.moves_bind (hboard _ (by simp)) fun _ => Act.moves_bind (hboard _ (by simp)) fun _ =>
  Act.moves_bind (hledger _ (by simp)) fun _ => Act.moves_bind (hledger _ (by simp)) fun _ =>
  Act.moves_bind (hboard _ (by simp)) fun _ => hrooms _ (by simp)

/-! ### A circle to try things on -/

/-- A context without an admin, with lower case and digits as far as ASCII names need them. -/
def plainCtx : Ctx where
  isAdmin := none
  now := .ofRat 1000
  clock := .ofRat 1000
  inCall := none
  platform := { toLowerCase := fun s => s.map asciiLower, base36 := Number.toStr }

/-- A circle with one channel and nothing in it. -/
def emptyCircle : Record where
  id := lit "srv"
  name := .str (lit "srv")
  members := none
  pendingMetaSync := false
  rooms :=
    { channels := [.str (lit "general")]
      voiceChannels := none
      deletedChannels := none
      deletedVoice := none
      chanMeta := none }
  board := { overview := none, notices := none, offers := none, rsvps := none }
  ledger := { proposals := none, threshold := none }

end Quorum
