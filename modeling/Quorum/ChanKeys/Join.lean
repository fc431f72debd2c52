import Quorum.ChanKeys.Refine
import Quorum.Order.Gathered

/-!
# Merging room keys is a join

What matters of a channel's entry is the log written to, the key written under, all keys known and
all logs known.  With the first two ordered downwards and the sets by inclusion these are the
elements of a semilattice (`Summary`), and the merge of two views is their join (`summary_merge`).
The laws of the code's merge (`MergeLaws`) all follow: it is commutative, associative and
idempotent, loses nothing, and devices that merged the same views agree.
-/

namespace Quorum

open Js

/-! ### What matters of a view -/

/-- The log and key written to, lower ones above; the keys known; the log ids known. -/
abbrev Summary := (Str ×ₗ Str)ᵒᵈ × Finset Str × Finset Str

/-- The four components of a view. -/
def View.summary (v : View) : Summary :=
  (OrderDual.toDual v.write, v.keys.toFinset, v.logIds.toFinset)

/-- **The merge of views is the join of their summaries.** -/
theorem View.summary_merge (a b : View) : (a.merge b).summary = a.summary ⊔ b.summary := by
  have hkeys : (a.merge b).keys.toFinset = a.keys.toFinset ∪ b.keys.toFinset := by
    ext k
    rw [Finset.mem_union, List.mem_toFinset, List.mem_toFinset, List.mem_toFinset, mem_keys_merge]
  have hids : (a.merge b).logIds.toFinset = a.logIds.toFinset ∪ b.logIds.toFinset := by
    ext i
    rw [Finset.mem_union, List.mem_toFinset, List.mem_toFinset, List.mem_toFinset,
      mem_logIds_merge]
  unfold summary
  rw [write_merge, hkeys, hids]
  rfl

/-! ### What matters of an entry -/

/-- An entry reads as at most one view. -/
theorem Reads.unique {entry : Value} {v v' : View} (h : Reads entry v) (h' : Reads entry v') :
    v = v' := by
  have hstr : Function.Injective Value.str := fun _ _ h => Value.str.inj h
  have hpair : Function.Injective fun a : Str × Str => (Value.str a.1, Value.str a.2) := by
    rintro ⟨a, b⟩ ⟨c, d⟩ h
    simpa using h
  obtain ⟨l, hl, halts⟩ := h.alts
  obtain ⟨l', hl', halts'⟩ := h'.alts
  obtain rfl : l = l' := Except.ok.inj (hl.symm.trans hl')
  have h1 := Value.str.inj (h.hid.symm.trans h'.hid)
  have h2 := Value.str.inj (h.hkey.symm.trans h'.hkey)
  have h3 := hstr.list_map (Except.ok.inj (h.hkeys.symm.trans h'.hkeys))
  have h4 := hpair.list_map (halts.symm.trans halts')
  cases v
  cases v'
  simp only at h1 h2 h3 h4
  subst h1 h2 h3 h4
  rfl

/-- A well-formed entry. -/
def WellFormed (entry : Value) : Prop := ∃ v, Reads entry v

/-- The four components of an entry. -/
def Sees (entry : Value) (s : Summary) : Prop := ∃ v, Reads entry v ∧ v.summary = s

/-- Two well-formed entries agree on all four components. -/
def SameView (x y : Value) : Prop := ∃ s, Sees x s ∧ Sees y s

/-- `m` is `x` with `y` folded in, as a change of settings or as a rebroadcast. -/
def Merges (x y m : Value) : Prop := ∃ mineWins, mergeChanKeys x y mineWins = .ok m

theorem Sees.unique (entry : Value) (s s' : Summary) (h : Sees entry s) (h' : Sees entry s') :
    s = s' := by
  obtain ⟨v, hv, rfl⟩ := h
  obtain ⟨v', hv', rfl⟩ := h'
  rw [hv.unique hv']

theorem Merges.reads {x y m : Value} {a b : View} (h : Merges x y m) (ha : Reads x a)
    (hb : Reads y b) : Reads m (a.merge b) := by
  obtain ⟨mineWins, h⟩ := h
  obtain ⟨m', hm', hreads⟩ := mergeChanKeys_reads ha hb mineWins
  obtain rfl : m' = m := Except.ok.inj (hm'.symm.trans h)
  exact hreads

theorem Merges.sees (x y m : Value) (s t : Summary) (h : Merges x y m) (hs : Sees x s)
    (ht : Sees y t) : Sees m (s ⊔ t) := by
  obtain ⟨a, ha, rfl⟩ := hs
  obtain ⟨b, hb, rfl⟩ := ht
  exact ⟨a.merge b, h.reads ha hb, View.summary_merge a b⟩

theorem WellFormed.sees {entry : Value} (h : WellFormed entry) : ∃ s, Sees entry s := by
  obtain ⟨v, hv⟩ := h
  exact ⟨v.summary, v, hv, rfl⟩

/-! ### The laws -/

/-- The laws of folding views of a channel into one another. -/
structure MergeLaws : Prop where
  /-- The merge of well-formed entries returns one. -/
  wellFormed : ∀ x y mineWins, WellFormed x → WellFormed y →
    ∃ m, mergeChanKeys x y mineWins = .ok m ∧ WellFormed m
  comm : ∀ x y m m', WellFormed x → WellFormed y → Merges x y m → Merges y x m' → SameView m m'
  assoc : ∀ x y z xy yz m m', WellFormed x → WellFormed y → WellFormed z →
    Merges x y xy → Merges xy z m → Merges y z yz → Merges x yz m' → SameView m m'
  idem : ∀ x m, WellFormed x → Merges x x m → SameView m x
  /-- No key and no log id of either side is lost. -/
  keeps : ∀ x y m a b, Reads x a → Reads y b → Merges x y m → ∃ v, Reads m v ∧
    (∀ k, k ∈ a.keys ∨ k ∈ b.keys → k ∈ v.keys) ∧
    ∀ i, i ∈ a.logIds ∨ i ∈ b.logIds → i ∈ v.logIds
  /-- The write log and key are the lexicographic minimum. -/
  least : ∀ x y m a b, Reads x a → Reads y b → Merges x y m → ∃ v, Reads m v ∧
    toLex (v.hid, v.hkey) = min (toLex (a.hid, a.hkey)) (toLex (b.hid, b.hkey))
  /-- Devices that merged the same views agree, whatever the order and the repetitions. -/
  converge : ∀ S r r', (∀ x ∈ S, WellFormed x) → Gathered Merges S r → Gathered Merges S r' →
    SameView r r'

/-- **Merging room keys is a join.** -/
theorem mergeChanKeys_join : MergeLaws where
  wellFormed x y mineWins := by
    rintro ⟨a, ha⟩ ⟨b, hb⟩
    obtain ⟨m, hm, hreads⟩ := mergeChanKeys_reads ha hb mineWins
    exact ⟨m, hm, a.merge b, hreads⟩
  comm x y m m' hx hy hm hm' := by
    obtain ⟨s, hs⟩ := hx.sees
    obtain ⟨t, ht⟩ := hy.sees
    exact ⟨s ⊔ t, hm.sees _ _ _ s t hs ht, sup_comm s t ▸ hm'.sees _ _ _ t s ht hs⟩
  assoc x y z xy yz m m' hx hy hz hxy hm hyz hm' := by
    obtain ⟨s, hs⟩ := hx.sees
    obtain ⟨t, ht⟩ := hy.sees
    obtain ⟨u, hu⟩ := hz.sees
    have hleft := hm.sees _ _ _ _ u (hxy.sees _ _ _ s t hs ht) hu
    have hright := hm'.sees _ _ _ s _ hs (hyz.sees _ _ _ t u ht hu)
    exact ⟨s ⊔ t ⊔ u, hleft, sup_assoc s t u ▸ hright⟩
  idem x m hx hm := by
    obtain ⟨s, hs⟩ := hx.sees
    exact ⟨s, sup_idem s ▸ hm.sees _ _ _ s s hs hs, hs⟩
  keeps x y m a b ha hb hm :=
    ⟨a.merge b, hm.reads ha hb, fun _ => View.mem_keys_merge.mpr,
      fun _ => View.mem_logIds_merge.mpr⟩
  least x y m a b ha hb hm := ⟨a.merge b, hm.reads ha hb, View.write_merge a b⟩
  converge S r r' hS h h' := by
    have hsees := fun x hx => (hS x hx).sees
    obtain ⟨s, hs, -⟩ := h.exists_isLUB Sees.unique Merges.sees hsees
    obtain ⟨s', hs', -⟩ := h'.exists_isLUB Sees.unique Merges.sees hsees
    exact ⟨s, hs, h.agree Sees.unique Merges.sees hsees h' hs hs' ▸ hs'⟩

end Quorum
