import Quorum.Order.Along

/-!
# Lists of entries with a limit

Entries are kept in a list under their keys, and there is a limit to how many.  A `Change` puts an
entry in the place of those under its key, changes entries one by one, or takes out what is under one
key.  A list in which an entry was put is sorted in some way and cut to the limit (`Change.Makes`), so
that a change may push out entries it does not name (`Change.Overflows`).

Entries that a change does not name stay (`Change.Makes.mem_map`).
-/

variable {α κ γ : Type}

/-- A change of a list of entries. -/
inductive Change (α κ : Type)
  | keep
  | put (entry : α)
  | adjust (f : α → α)
  | remove (k : κ)

/-- A list sorted in some way and cut to a limit. -/
def IsCut (limit : ℕ) (l l' : List α) : Prop :=
  ∃ sorted : List α, sorted.Perm l ∧ l' = sorted.take limit

theorem IsCut.subset {limit : ℕ} {l l' : List α} (h : IsCut limit l l') : l' ⊆ l := by
  obtain ⟨sorted, hperm, rfl⟩ := h
  exact fun x hx => hperm.subset (List.mem_of_mem_take hx)

/-- Nothing is lost within the limit. -/
theorem IsCut.superset {limit : ℕ} {l l' : List α} (h : IsCut limit l l') (hlen : l.length ≤ limit) :
    l ⊆ l' := by
  obtain ⟨sorted, hperm, rfl⟩ := h
  rw [List.take_of_length_le (hperm.length_eq.trans_le hlen)]
  exact hperm.symm.subset

namespace Change

variable [DecidableEq κ] (key : α → κ)

/-- The entries after a change, before they are cut. -/
def result (l : List α) : Change α κ → List α
  | keep => l
  | put entry => entry :: l.filter fun x => key x ≠ key entry
  | adjust f => l.map f
  | remove k => l.filter fun x => key x ≠ k

/-- A list is what a change makes of another. -/
def Makes (limit : ℕ) (c : Change α κ) (l l' : List α) : Prop :=
  match c with
  | put _ => IsCut limit (c.result key l) l'
  | _ => l' = c.result key l

/-- A change makes a list too long, so that entries are pushed out. -/
def Overflows (limit : ℕ) (c : Change α κ) (l : List α) : Prop :=
  match c with
  | put _ => limit < (c.result key l).length
  | _ => False

/-- What a change does to single entries leaves a part of them alone. -/
def Leaves (part : α → γ) : Change α κ → Prop
  | adjust f => ∀ x, part (f x) = part x
  | _ => True

/-- A change names a key: it puts an entry under it or takes out what is under it. -/
def Names (k : κ) : Change α κ → Prop
  | put entry => key entry = k
  | remove k' => k' = k
  | _ => False

def Adds (x : α) : Change α κ → Prop
  | put entry => x = entry
  | _ => False

variable {key} {limit : ℕ} {c : Change α κ} {l l' : List α}

theorem Makes.subset (h : c.Makes key limit l l') : l' ⊆ c.result key l := by
  cases c with
  | put entry => exact IsCut.subset h
  | keep | adjust f | remove k => exact fun _ hx => h ▸ hx

theorem Makes.superset (h : c.Makes key limit l l') (hfits : ¬ c.Overflows key limit l) :
    c.result key l ⊆ l' := by
  cases c with
  | put entry => exact IsCut.superset h (not_lt.mp hfits)
  | keep | adjust f | remove k => exact fun _ hx => h ▸ hx

/-- **An entry that a change does not name stays**, up to what the change does to single entries,
unless the list is too long. -/
theorem Makes.mem_map (h : c.Makes key limit l l') {part : α → γ} (hleaves : c.Leaves part) {x : α}
    (hx : x ∈ l) (hname : ¬ c.Names key (key x)) (hfits : ¬ c.Overflows key limit l) :
    part x ∈ l'.map part := by
  refine List.map_subset part (h.superset hfits) ?_
  cases c with
  | keep => exact List.mem_map_of_mem hx
  | put entry =>
    refine List.mem_map_of_mem (List.mem_cons_of_mem _ (List.mem_filter.mpr ⟨hx, ?_⟩))
    exact decide_eq_true fun heq => hname heq.symm
  | adjust f =>
    rw [← hleaves x]
    exact List.mem_map_of_mem (List.mem_map_of_mem hx)
  | remove k =>
    refine List.mem_map_of_mem (List.mem_filter.mpr ⟨hx, ?_⟩)
    exact decide_eq_true fun heq => hname heq.symm

/-- **Every entry was added, or was there before**, up to what the change does to single entries. -/
theorem Makes.of_mem (h : c.Makes key limit l l') {part : α → γ} (hleaves : c.Leaves part) {y : α}
    (hy : y ∈ l') : c.Adds y ∨ ∃ x ∈ l, part x = part y := by
  have hres := h.subset hy
  cases c with
  | keep => exact .inr ⟨y, hres, rfl⟩
  | put entry =>
    rcases List.mem_cons.mp hres with rfl | hres
    · exact .inl rfl
    · exact .inr ⟨y, List.mem_of_mem_filter hres, rfl⟩
  | adjust f =>
    obtain ⟨x, hx, rfl⟩ := List.mem_map.mp hres
    exact .inr ⟨x, hx, (hleaves x).symm⟩
  | remove k => exact .inr ⟨y, List.mem_of_mem_filter hres, rfl⟩

end Change

/-! ### Entries of one author -/

section

variable {ω : Type} (key : α → κ) (author : α → ω)

/-- Nobody else has an entry under a key of one author's entries. -/
def Unshared (a : ω) (l : List α) : Prop :=
  ∀ x ∈ l, ∀ y ∈ l, author x = a → key y = key x → author y = a

variable [DecidableEq κ] {key author} {a : ω} {limit : ℕ} {c : Change α κ} {l l' : List α}

theorem Unshared.of_makes (hl : Unshared key author a l) (h : c.Makes key limit l l')
    (hleaves : c.Leaves fun x => (key x, author x))
    (hadds : ∀ y, c.Adds y → author y ≠ a ∧ ∀ x ∈ l, author x = a → key x ≠ key y) :
    Unshared key author a l' := by
  intro x hx y hy hauthor hkey
  rcases h.of_mem hleaves hx with hadded | ⟨x', hx', hxx⟩
  · exact absurd hauthor (hadds x hadded).1
  · obtain ⟨hkx, hax⟩ := Prod.mk.inj hxx
    rcases h.of_mem hleaves hy with hadded | ⟨y', hy', hyy⟩
    · exact absurd (hkx.trans hkey.symm) ((hadds y hadded).2 x' hx' (hax.trans hauthor))
    · obtain ⟨hky, hay⟩ := Prod.mk.inj hyy
      rw [← hay]
      exact hl x' hx' y' hy' (hax.trans hauthor) (by rw [hky, hkey, hkx])

end
