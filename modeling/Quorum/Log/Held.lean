import Quorum.Log.Fold

/-!
# What a working copy holds

An entry of a page that was folded in is found again under its identity: a line under its author and
timestamp, a mutation under its author, kind and timestamp (`identityOf`).  Once the working copy
holds an identity from a page it keeps it, and it comes to hold exactly those of the items that are
folded in (`holds_foldl`), so an entry that no page brings is held only if another one has its
identity.
-/

namespace Quorum

open Js

/-- What an entry is filed under: a line or a mutation. -/
inductive Identity
  | line (id : Str)
  | mutation (id : Str)
deriving DecidableEq

/-- What an item is filed under, if the fold files it at all. -/
def identityOf (place : Place) (item : Item) : Option Identity :=
  match contentOf place item with
  | some m => some (.line m.id)
  | none => (mutationOf 0 item).map fun mu => .mutation mu.id

theorem id_mutationOf (next : ℕ) (item : Item) :
    (mutationOf next item).map (·.id) =
      if item.isMutation then (mutationId item.entry).toOption else none := by
  unfold mutationOf
  split
  · split
    · next id hid => exact congrArg Except.toOption hid.symm
    · next e he => exact congrArg Except.toOption he.symm
  · rfl

/-- An identity is that of the line, or else that of the mutation. -/
theorem identityOf_eq (place : Place) (next : ℕ) (item : Item) :
    identityOf place item =
      (((contentOf place item).map Message.id).map .line).or
        (((mutationOf next item).map (·.id)).map .mutation) := by
  rw [id_mutationOf next, ← id_mutationOf 0, identityOf]
  cases contentOf place item with
  | some m => rfl
  | none => exact (Option.map_map ..).symm

/-- The number of an entry is no part of its identity. -/
theorem identityOf_seq (place : Place) (item : Item) (seq : Option ℕ) :
    identityOf place { item with seq } = identityOf place item := by
  have hcontent : (contentOf place { item with seq }).map Message.id =
      (contentOf place item).map Message.id := by
    unfold contentOf
    rw [show ({ item with seq } : Item).isContent = item.isContent from rfl]
    split
    · rw [entryToMessage_seq _ _ _ seq, entryToMessage_seq _ _ _ item.seq]
      cases entryToMessage item.entry place item.auth none with
      | error e => rfl
      | ok m => cases m <;> rfl
    · rfl
  rw [identityOf_eq place 0, identityOf_eq place 0 item, hcontent, id_mutationOf, id_mutationOf]
  rfl

/-- The working copy has a line that is not just an echo, or a mutation. -/
def ChannelLog.holds (log : ChannelLog) : Identity → Bool
  | .line id => (log.base.get? id).any fun m => !m.isLocal
  | .mutation id => log.mutations.has id

/-- The entry was folded in, or is one that the fold passes over. -/
def ChannelLog.Has (place : Place) (log : ChannelLog) (item : Item) : Prop :=
  ∀ i ∈ identityOf place item, log.holds i

instance ChannelLog.Has.decidable (place : Place) (log : ChannelLog) (item : Item) :
    Decidable (log.Has place item) :=
  inferInstanceAs (Decidable (∀ i ∈ identityOf place item, log.holds i = true))

variable {place : Place} {log : ChannelLog} {item : Item}

theorem holds_keep {prior : Option Message} {m : Message} (hm : m.isLocal = false) :
    ((keep prior m).any fun m => !m.isLocal) = true := by
  cases prior with
  | none => simp [keep, hm]
  | some prior =>
    cases hp : prior.isLocal <;> simp [keep, hp, hm]

theorem has_fileNew (mutations : Dict Str Mutation) (mu : Mutation) (id : Str) :
    (fileNew mutations mu).has id = true ↔ mutations.has id = true ∨ mu.id = id := by
  unfold fileNew
  split
  · next hhas => exact ⟨.inl, fun h => h.elim (fun h => h) fun heq => heq ▸ hhas⟩
  · rw [Dict.has_eq_isSome, Dict.has_eq_isSome, Dict.get?_set]
    by_cases hid : mu.id = id
    · simp [hid]
    · have hne : (mu.id == id) = false := beq_eq_false_iff_ne.mpr hid
      simp [hid, hne]

/-- **Step.**  An item of a page is held from then on, and nothing else is. -/
theorem holds_fold1 (hlocal : item.isLocal = false) (i : Identity) :
    (fold1 place log item).holds i = true ↔ log.holds i = true ∨ identityOf place item = some i := by
  cases hc : contentOf place item with
  | some m =>
    obtain ⟨sender, ts, reply, body, -, -, hm⟩ := contentOf_some hc
    have hmlocal : m.isLocal = false := by rw [hm, ← hlocal]
    rw [fold1_of_content hc, identityOf, hc]
    cases i with
    | mutation id => simp [ChannelLog.holds]
    | line id =>
      simp only [ChannelLog.holds, Option.some.injEq, Identity.line.injEq]
      rw [store_get?, noteSeq_base]
      by_cases hid : m.id = id
      · rw [if_pos hid]
        exact ⟨fun _ => .inr hid, fun _ => holds_keep hmlocal⟩
      · rw [if_neg hid]
        exact ⟨.inl, fun h => h.resolve_right hid⟩
  | none =>
    rw [identityOf_eq place log.localSeq, hc, Option.map_none, Option.map_none, Option.none_or,
      Option.map_map]
    cases hm : mutationOf log.localSeq item with
    | some mu =>
      obtain ⟨hbase, hmutations, -⟩ := fold1_of_mutation place hm
      cases i with
      | line id => simp [ChannelLog.holds, hbase]
      | mutation id =>
        simp only [ChannelLog.holds, hmutations, Option.map_some, Option.some.injEq,
          Function.comp_apply, Identity.mutation.injEq]
        exact has_fileNew ..
    | none =>
      obtain ⟨hbase, hmutations, -⟩ := fold1_of_neither hc hm
      cases i <;> simp [ChannelLog.holds, hbase, hmutations]

/-- **Run.**  The working copy holds what it held and the items of pages that were folded in. -/
theorem holds_foldl {items : List Item} (hlocal : ∀ item ∈ items, item.isLocal = false)
    (i : Identity) :
    (items.foldl (fold1 place) log).holds i = true ↔
      log.holds i = true ∨ ∃ item ∈ items, identityOf place item = some i := by
  induction items generalizing log with
  | nil => simp
  | cons item items ih =>
    rw [List.foldl_cons, ih fun x hx => hlocal x (List.mem_cons_of_mem _ hx),
      holds_fold1 (hlocal item (List.mem_cons_self ..)), or_assoc, List.exists_mem_cons_iff]

/-- `addEntries` returns when none of its items throws. -/
theorem isOk_addEntries (place : Place) (log : ChannelLog) (items : List Item) :
    (addEntries place log items).2.isOk = true ↔ ∀ item ∈ items, throws place item = false := by
  induction items generalizing log with
  | nil => simp [addEntries, Except.isOk, Except.toBool]
  | cons item items ih =>
    rw [addEntries, List.forall_mem_cons, throws_eq place log item]
    cases hadd : addEntry place log item with
    | mk log' added =>
      cases added with
      | error e => simp [Except.isOk, Except.toBool]
      | ok added =>
        rw [← ih log']
        cases htotal : (addEntries place log' items).2 <;>
          simp [htotal, Except.isOk, Except.toBool, Except.map]

/-- A page whose items can all be read is held from then on. -/
theorem holds_addEntries {items : List Item} (hok : (addEntries place log items).2.isOk = true)
    (hlocal : ∀ item ∈ items, item.isLocal = false) (i : Identity) :
    (addEntries place log items).1.holds i = true ↔
      log.holds i = true ∨ ∃ item ∈ items, identityOf place item = some i := by
  have hreached := reached_eq_self ((isOk_addEntries place log items).mp hok)
  rw [addEntries_eq_foldl, hreached, holds_foldl hlocal]

end Quorum
