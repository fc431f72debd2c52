import Quorum.Mls.Directory
import Mathlib.Data.Sym.Sym2

/-!
# Safety numbers

Two members who compare a safety number compare the hash of both names and both keys
(`safety_number`).  The two parties are put in order, so it does not matter which of them computes
it; and every name and every key is written under its length, so that what is hashed tells who the
parties are and what keys they have (`safetyInput_injective`).
-/

namespace Quorum.Mls

open Store (Bytes)

variable {mls : OpenMls}

/-! ### The order of the parties -/

theorem lt_or_eq_or_gt (a b : Bytes) : a < b ∨ a = b ∨ b < a := by
  by_cases h : a < b
  · exact .inl h
  · obtain hlt | heq := List.le_iff_lt_or_eq.mp (List.not_lt.mp h)
    · exact .inr (.inr hlt)
    · exact .inr (.inl heq.symm)

/-- The order of the parties: by name, then by key. -/
def Before (a b : Bytes × Bytes) : Prop := a.1 < b.1 ∨ a.1 = b.1 ∧ a.2 < b.2

theorem Before.asymm {a b : Bytes × Bytes} (h : Before a b) : ¬ Before b a := by
  rintro (h' | ⟨heq', h'⟩) <;> obtain h | ⟨heq, h⟩ := h
  · exact List.lt_asymm h h'
  · exact List.lt_irrefl _ (heq ▸ h')
  · exact List.lt_irrefl _ (heq' ▸ h)
  · exact List.lt_asymm h h'

theorem before_or_eq_or_before (a b : Bytes × Bytes) : Before a b ∨ a = b ∨ Before b a := by
  obtain h | heq | h := lt_or_eq_or_gt a.1 b.1
  · exact .inl (.inl h)
  · obtain h | heq' | h := lt_or_eq_or_gt a.2 b.2
    · exact .inl (.inr ⟨heq, h⟩)
    · exact .inr (.inl (Prod.ext heq heq'))
    · exact .inr (.inr (.inr ⟨heq.symm, h⟩))
  · exact .inr (.inr (.inl h))

theorem sortParties_of_before {a b : Bytes × Bytes} (h : Before b a) : sortParties a b = [b, a] :=
  if_pos h

theorem sortParties_of_not_before {a b : Bytes × Bytes} (h : ¬ Before b a) :
    sortParties a b = [a, b] :=
  if_neg h

/-- It does not matter which of the parties is named first. -/
theorem sortParties_comm (a b : Bytes × Bytes) : sortParties a b = sortParties b a := by
  obtain h | rfl | h := before_or_eq_or_before a b
  · rw [sortParties_of_not_before h.asymm, sortParties_of_before h]
  · rfl
  · rw [sortParties_of_before h, sortParties_of_not_before h.asymm]

/-- The sorted parties are the parties. -/
theorem sortParties_inj {a b a' b' : Bytes × Bytes} (h : sortParties a b = sortParties a' b') :
    s(a, b) = s(a', b') := by
  have hpair (x y : Bytes × Bytes) : ∃ p q, sortParties x y = [p, q] ∧ s(p, q) = s(x, y) := by
    unfold sortParties
    split
    · exact ⟨y, x, rfl, Sym2.eq_swap⟩
    · exact ⟨x, y, rfl, rfl⟩
  obtain ⟨p, q, hpq, hsym⟩ := hpair a b
  obtain ⟨p', q', hpq', hsym'⟩ := hpair a' b'
  rw [hpq, hpq'] at h
  cases h
  exact hsym.symm.trans hsym'

/-! ### The framing -/

/-- What is written under its length ends where it ends. -/
theorem hashed_append_inj {a b r r' : Bytes} (ha : a.length < 2 ^ 64) (hb : b.length < 2 ^ 64)
    (h : hashed a ++ r = hashed b ++ r') : a = b ∧ r = r' := by
  unfold hashed at h
  rw [List.append_assoc, List.append_assoc] at h
  obtain ⟨hlength, hrest⟩ := List.append_inj h (by rw [length_beBytes, length_beBytes])
  have heq := congrArg ofBeBytes hlength
  rw [ofBeBytes_beBytes ha, ofBeBytes_beBytes hb] at heq
  exact List.append_inj hrest heq

/-- A name and a key that a `String` and a `Vec` can hold: their lengths fit the `u64` they are
written as. -/
def Credential.Fits (c : Credential) : Prop :=
  (asBytes c.handle).length < 2 ^ 64 ∧ c.signatureKey.length < 2 ^ 64

/-- What is hashed for a party. -/
def party (c : Credential) : Bytes × Bytes := (asBytes c.handle, c.signatureKey)

theorem party_injective : Function.Injective party := by
  rintro ⟨handle, key⟩ ⟨handle', key'⟩ h
  obtain ⟨hhandle, hkey⟩ := Prod.ext_iff.mp h
  cases asBytes_injective hhandle
  cases hkey
  rfl

theorem safetyInput_comm (me peer : Credential) : safetyInput me peer = safetyInput peer me := by
  unfold safetyInput
  rw [sortParties_comm]

/-- Two parties, one after the other, are read back. -/
theorem parties_inj {l l' : List (Bytes × Bytes)} (hlength : l.length = l'.length)
    (hl : ∀ p ∈ l, p.1.length < 2 ^ 64 ∧ p.2.length < 2 ^ 64)
    (hl' : ∀ p ∈ l', p.1.length < 2 ^ 64 ∧ p.2.length < 2 ^ 64)
    (h : (l.flatMap fun p => hashed p.1 ++ hashed p.2) =
      l'.flatMap fun p => hashed p.1 ++ hashed p.2) : l = l' := by
  induction l generalizing l' with
  | nil => exact (List.eq_nil_of_length_eq_zero hlength.symm).symm
  | cons p l ih =>
    obtain ⟨p', l', rfl⟩ := List.exists_cons_of_length_eq_add_one hlength.symm
    rw [List.forall_mem_cons] at hl hl'
    simp only [List.flatMap_cons, List.append_assoc] at h
    obtain ⟨hname, h⟩ := hashed_append_inj hl.1.1 hl'.1.1 h
    obtain ⟨hkey, h⟩ := hashed_append_inj hl.1.2 hl'.1.2 h
    rw [Prod.ext hname hkey, ih (by simpa using hlength) hl.2 hl'.2 h]

theorem mem_sortParties {a b p : Bytes × Bytes} (h : p ∈ sortParties a b) : p = a ∨ p = b := by
  unfold sortParties at h
  split at h
  · simpa [or_comm] using h
  · simpa using h

theorem length_sortParties (a b : Bytes × Bytes) : (sortParties a b).length = 2 := by
  unfold sortParties
  split <;> rfl

/-- **What is hashed tells the parties and their keys.** -/
theorem safetyInput_injective {me peer me' peer' : Credential} (hme : me.Fits) (hpeer : peer.Fits)
    (hme' : me'.Fits) (hpeer' : peer'.Fits) (h : safetyInput me peer = safetyInput me' peer') :
    s(me, peer) = s(me', peer') := by
  have hfits {a b : Credential} (ha : a.Fits) (hb : b.Fits) :
      ∀ p ∈ sortParties (party a) (party b), p.1.length < 2 ^ 64 ∧ p.2.length < 2 ^ 64 := by
    intro p hp
    obtain rfl | rfl := mem_sortParties hp
    · exact ha
    · exact hb
  have hsorted : sortParties (party me) (party peer) = sortParties (party me') (party peer') :=
    parties_inj (by rw [length_sortParties, length_sortParties]) (hfits hme hpeer)
      (hfits hme' hpeer') (List.append_cancel_left h)
  have hsym : s(party me, party peer) = s(party me', party peer') := sortParties_inj hsorted
  exact Sym2.map.injective party_injective hsym

/-! ### Two clients -/

/-- The client sees one leaf for the other in the group, with the other's key. -/
def Sees (a b : ChatClient mls) (id : String) : Prop :=
  ∃ group leaf, a.groups.get? id = some group ∧
    (mls.members group).filter (fun m => m.identity = some b.name) = [leaf] ∧
    leaf.signatureKey = b.signer.pubkey

theorem safetyNumber_eq (sha256 : Bytes → Bytes) {c : ChatClient mls} {id peer : String}
    {group : mls.Group} {leaf : Member} (hgroup : c.groups.get? id = some group)
    (hleaf : findMember group peer = some leaf) : safetyNumber sha256 c id peer =
      .ok (safetyDigits (sha256 (safetyInput c.credential ⟨peer, leaf.signatureKey⟩))) := by
  unfold safetyNumber
  rw [hgroup]
  dsimp only
  rw [hleaf]

theorem safetyNumber_of_sees (sha256 : Bytes → Bytes) {a b : ChatClient mls} {id : String}
    (h : Sees a b id) : safetyNumber sha256 a id b.name =
      .ok (safetyDigits (sha256 (safetyInput a.credential b.credential))) := by
  obtain ⟨group, leaf, hgroup, hleaf, hkey⟩ := h
  have hfind : findMember group b.name = some leaf := by
    rw [findMember, ← List.head?_filter, hleaf]
    rfl
  rw [safetyNumber_eq sha256 hgroup hfind, hkey]
  rfl

/-- A client computes the hash of its own credential and that of the leaf it finds for the other.
Two clients that find each other's leaves hash the same, and what they hash tells the two parties and
their keys. -/
theorem safety_number_identifies (sha256 : Bytes → Bytes) :
    (∀ (c : ChatClient mls) (id peer : String) (group : mls.Group) (leaf : Member),
      c.groups.get? id = some group → findMember group peer = some leaf →
      safetyNumber sha256 c id peer =
        .ok (safetyDigits (sha256 (safetyInput c.credential ⟨peer, leaf.signatureKey⟩)))) ∧
    (∀ (a b : ChatClient mls) (id : String), Sees a b id → Sees b a id →
      safetyNumber sha256 a id b.name =
          .ok (safetyDigits (sha256 (safetyInput a.credential b.credential))) ∧
        safetyNumber sha256 b id a.name = safetyNumber sha256 a id b.name) ∧
    ∀ me peer me' peer' : Credential, me.Fits → peer.Fits → me'.Fits → peer'.Fits →
      safetyInput me peer = safetyInput me' peer' → s(me, peer) = s(me', peer') := by
  refine ⟨fun _ _ _ _ _ => safetyNumber_eq sha256, fun a b id hab hba => ?_,
    fun _ _ _ _ => safetyInput_injective⟩
  refine ⟨safetyNumber_of_sees sha256 hab, ?_⟩
  rw [safetyNumber_of_sees sha256 hab, safetyNumber_of_sees sha256 hba, safetyInput_comm]

end Quorum.Mls
