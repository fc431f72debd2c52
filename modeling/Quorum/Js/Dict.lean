import Mathlib

/-!
# Insertion-ordered maps and sets

`Dict K V` is the language's `Map`, and what a plain object is apart from its prototype: entries in
the order their keys were first written, no two of them under equal keys.  That no key is listed
twice is a field, so every operation keeps it by construction.  Keys are compared by the `BEq`
instance, which need not be lawful: the `SameValueZero` comparison of values is not.

A `Set` is a list built by `insertNew`, which keeps the first of several equal elements.
-/

namespace Js

/-- A map with its entries in insertion order. -/
structure Dict (K V : Type) [BEq K] where
  /-- The entries, oldest first. -/
  entries : List (K × V)
  /-- No two entries have equal keys. -/
  distinct : entries.Pairwise fun a b => (a.1 == b.1) = false

namespace Dict

variable {K V : Type} [BEq K]

/-- `new Map()`. -/
def empty : Dict K V := ⟨[], List.Pairwise.nil⟩

/-- `map.has(k)`. -/
def has (d : Dict K V) (k : K) : Bool := d.entries.any fun p => p.1 == k

/-- `map.get(k)`. -/
def get? (d : Dict K V) (k : K) : Option V := (d.entries.find? fun p => p.1 == k).map Prod.snd

/-- Write a value over an entry that exists. -/
def put (k : K) (v : V) (p : K × V) : K × V := if p.1 == k then (p.1, v) else p

theorem put_fst (k : K) (v : V) (p : K × V) : (put k v p).1 = p.1 := by
  unfold put
  split <;> rfl

/-- `map.set(k, v)`: an existing entry keeps its place, a new one goes last. -/
def set (d : Dict K V) (k : K) (v : V) : Dict K V :=
  if h : d.has k then
    ⟨d.entries.map (put k v), by
      rw [List.pairwise_map]
      exact d.distinct.imp fun hab => by rw [put_fst, put_fst]; exact hab⟩
  else
    ⟨d.entries ++ [(k, v)], by
      rw [List.pairwise_append]
      refine ⟨d.distinct, List.pairwise_singleton _ _, ?_⟩
      intro a ha b hb
      obtain rfl := List.mem_singleton.mp hb
      have hall : ∀ p ∈ d.entries, (p.1 == k) = false := by
        simpa [has, List.any_eq_false] using h
      exact hall a ha⟩

/-- `map.delete(k)`. -/
def delete (d : Dict K V) (k : K) : Dict K V :=
  ⟨d.entries.filter fun p => !(p.1 == k), d.distinct.filter _⟩

def filter (d : Dict K V) (f : K → V → Bool) : Dict K V :=
  ⟨d.entries.filter fun p => f p.1 p.2, d.distinct.filter _⟩

/-- `[...map.keys()]`. -/
def keys (d : Dict K V) : List K := d.entries.map Prod.fst

/-- `[...map.values()]`. -/
def values (d : Dict K V) : List V := d.entries.map Prod.snd

/-- `map.size`. -/
def size (d : Dict K V) : ℕ := d.entries.length

/-- Write a list of entries one after the other, as a spread does. -/
def setAll (d : Dict K V) (l : List (K × V)) : Dict K V := l.foldl (fun d p => d.set p.1 p.2) d

/-- An object made of a list of properties, the later of two equal names winning. -/
def ofList (l : List (K × V)) : Dict K V := setAll empty l

/-- Write an entry unless its key is there. -/
def setNew (d : Dict K V) (p : K × V) : Dict K V := if d.has p.1 then d else d.set p.1 p.2

/-- The properties of an object as a map.  An object lists no name twice; of a list that did, the
first entry counts, as it does for `find?`. -/
def ofProps (l : List (K × V)) : Dict K V := l.foldl setNew empty

/-- Apply a function to the value under each key. -/
def mapValues {W : Type} (d : Dict K V) (f : K → V → W) : Dict K W :=
  ⟨d.entries.map fun p => (p.1, f p.1 p.2), by
    rw [List.pairwise_map]
    exact d.distinct⟩

/-! ### Reading after writing -/

@[ext] theorem ext {d d' : Dict K V} (h : d.entries = d'.entries) : d = d' := by
  cases d
  cases d'
  simp only at h
  subst h
  rfl

@[simp] theorem get?_empty (k : K) : (empty : Dict K V).get? k = none := rfl

theorem has_eq_isSome (d : Dict K V) (k : K) : d.has k = (d.get? k).isSome := by
  rw [has, get?, Option.isSome_map, Bool.eq_iff_iff, List.find?_isSome, List.any_eq_true]

theorem get?_eq_none_iff (d : Dict K V) (k : K) : d.get? k = none ↔ d.has k = false := by
  rw [has_eq_isSome]
  simp

theorem entries_set (d : Dict K V) (k : K) (v : V) :
    (d.set k v).entries =
      if d.has k then d.entries.map (put k v) else d.entries ++ [(k, v)] := by
  unfold set
  split <;> rfl

theorem size_set (d : Dict K V) (k : K) (v : V) :
    (d.set k v).size = if d.has k then d.size else d.size + 1 := by
  rw [size, entries_set]
  split <;> simp [size]

theorem size_delete_le (d : Dict K V) (k : K) : (d.delete k).size ≤ d.size :=
  List.length_filter_le ..

theorem keys_set (d : Dict K V) (k : K) (v : V) :
    (d.set k v).keys = if d.has k then d.keys else d.keys ++ [k] := by
  rw [keys, entries_set]
  split
  · have hfst : Prod.fst ∘ put k v = Prod.fst := funext (put_fst k v)
    rw [List.map_map, hfst]
    rfl
  · rw [List.map_append]
    rfl

variable {d : Dict K V} {v : V} {k : K}

theorem mem_keys_of_mem_keys_set {k' : K} (h : k' ∈ (d.set k v).keys) :
    k' ∈ d.keys ∨ k' = k := by
  rw [keys_set] at h
  split at h
  · exact .inl h
  · exact (List.mem_append.mp h).imp_right List.mem_singleton.mp

theorem mem_keys_set_of_mem {k' : K} (h : k' ∈ d.keys) (k : K) (v : V) :
    k' ∈ (d.set k v).keys := by
  rw [keys_set]
  split
  · exact h
  · exact List.mem_append_left _ h

theorem mem_values_set_self (d : Dict K V) (k : K) (v : V) : v ∈ (d.set k v).values := by
  rw [values, entries_set]
  split
  · rename_i h
    obtain ⟨p, hp, hk⟩ := List.any_eq_true.mp h
    refine List.mem_map.mpr ⟨put k v p, List.mem_map_of_mem hp, ?_⟩
    rw [put, if_pos hk]
  · simp

/-- A key finds the entry it is equal to. -/
theorem get?_of_mem_entries [PartialEquivBEq K] {p : K × V} (hp : p ∈ d.entries)
    (hk : (p.1 == k) = true) : d.get? k = some p.2 := by
  have key : ∀ l : List (K × V), l.Pairwise (fun a b => (a.1 == b.1) = false) → p ∈ l →
      l.find? (fun q => q.1 == k) = some p := by
    intro l hl hm
    induction l with
    | nil => cases hm
    | cons q l ih =>
      rw [List.pairwise_cons] at hl
      rcases List.mem_cons.mp hm with rfl | hm
      · rw [List.find?_cons, hk]
      · have hne : (q.1 == k) = false := by
          rw [← Bool.not_eq_true]
          intro hq
          have hqp := PartialEquivBEq.trans hq (PartialEquivBEq.symm hk)
          rw [hl.1 _ hm] at hqp
          cases hqp
        rw [List.find?_cons, hne]
        exact ih hl.2 hm
  rw [get?, key _ d.distinct hp]
  rfl

/-- A write replaces only the value under its own key. -/
theorem mem_values_set_of_mem [PartialEquivBEq K] {w : V} (h : w ∈ d.values) (k : K)
    (v : V) : w ∈ (d.set k v).values ∨ d.get? k = some w := by
  obtain ⟨p, hp, rfl⟩ := List.mem_map.mp h
  cases hk : p.1 == k with
  | true => exact .inr (get?_of_mem_entries hp hk)
  | false =>
    left
    rw [values, entries_set]
    split
    · refine List.mem_map.mpr ⟨put k v p, List.mem_map_of_mem hp, ?_⟩
      rw [put, hk]
      rfl
    · simp only [List.map_append, List.mem_append]
      exact .inl h

variable [LawfulBEq K]

theorem mem_entries_iff :
    (k, v) ∈ d.entries ↔ d.get? k = some v := by
  constructor
  · exact fun h => get?_of_mem_entries h (beq_self_eq_true k)
  · intro h
    rw [get?, Option.map_eq_some_iff] at h
    obtain ⟨p, hp, rfl⟩ := h
    have hk : p.1 = k := by simpa using List.find?_some hp
    rw [← hk]
    exact List.mem_of_find?_eq_some hp

theorem mem_values_iff : v ∈ d.values ↔ ∃ k, d.get? k = some v := by
  simp only [values, List.mem_map, Prod.exists, exists_eq_right, mem_entries_iff]

theorem has_iff_mem_keys : d.has k = true ↔ k ∈ d.keys := by
  simp only [has, keys, List.any_eq_true, List.mem_map, beq_iff_eq]

theorem has_of_size (h : d.size = 0) (k : K) : d.has k = false := by
  have hnil : d.keys = [] := by
    rw [keys, List.map_eq_nil_iff]
    exact List.length_eq_zero_iff.mp h
  cases hhas : d.has k with
  | false => rfl
  | true =>
    rw [has_iff_mem_keys, hnil] at hhas
    cases hhas

theorem nodup_keys (d : Dict K V) : d.keys.Nodup := by
  rw [keys, List.Nodup, List.pairwise_map]
  exact d.distinct.imp fun h => by simpa using h

/-- Maps that answer alike hold the same values, up to the order they were written in. -/
theorem perm_values {d' : Dict K V} (h : ∀ k, d.get? k = d'.get? k) :
    d.values.Perm d'.values := by
  have hnodup : ∀ d : Dict K V, d.entries.Nodup := fun d => (nodup_keys d).of_map _
  refine List.Perm.map _ ((List.perm_ext_iff_of_nodup (hnodup d) (hnodup d')).mpr ?_)
  rintro ⟨k, v⟩
  rw [mem_entries_iff, mem_entries_iff, h]

theorem get?_set (d : Dict K V) (k k' : K) (v : V) :
    (d.set k v).get? k' = if k == k' then some v else d.get? k' := by
  unfold set
  split
  · rename_i h
    have hmap : ∀ l : List (K × V), (l.map (put k v)).find? (fun p => p.1 == k') =
        (l.find? fun p => p.1 == k').map (put k v) := by
      intro l
      rw [List.find?_map]
      congr 2
      funext p
      simp [put_fst]
    rw [get?, hmap, Option.map_map]
    by_cases hk : k = k'
    · subst hk
      rw [has_eq_isSome, get?, Option.isSome_map, Option.isSome_iff_exists] at h
      obtain ⟨p, hp⟩ := h
      have hpk : p.1 = k := by simpa using List.find?_some hp
      simp [hp, put, hpk]
    · rw [if_neg (by simpa using hk), get?]
      cases hf : d.entries.find? (fun p => p.1 == k') with
      | none => rfl
      | some p =>
        have hpk : p.1 = k' := by simpa using List.find?_some hf
        simp [put, hpk, Ne.symm hk]
  · rename_i h
    have hnone : d.get? k = none := (get?_eq_none_iff d k).mpr (by simpa using h)
    rw [get?, List.find?_append]
    by_cases hk : k = k'
    · subst hk
      rw [get?, Option.map_eq_none_iff] at hnone
      simp [hnone]
    · simp [get?, hk]

@[simp] theorem get?_set_self (d : Dict K V) (k : K) (v : V) : (d.set k v).get? k = some v := by
  simp [get?_set]

theorem get?_set_of_ne (d : Dict K V) {k' : K} (v : V) (h : k ≠ k') :
    (d.set k v).get? k' = d.get? k' := by
  simp [get?_set, h]

/-- What is found after a write was written or was there. -/
theorem get?_set_cases {k' : K} {w : V} (h : (d.set k v).get? k' = some w) :
    k = k' ∧ v = w ∨ k ≠ k' ∧ d.get? k' = some w := by
  rw [get?_set] at h
  split at h
  · next hk => exact .inl ⟨beq_iff_eq.mp hk, Option.some.inj h⟩
  · next hk => exact .inr ⟨fun heq => hk (beq_iff_eq.mpr heq), h⟩

theorem get?_filter (d : Dict K V) (f : K → V → Bool) (k : K) :
    (d.filter f).get? k = (d.get? k).filter (f k) := by
  rcases hg : d.get? k with _ | v
  · rw [Option.filter_none, get?_eq_none_iff, ← Bool.not_eq_true, has_iff_mem_keys]
    rw [get?_eq_none_iff, ← Bool.not_eq_true, has_iff_mem_keys] at hg
    intro hmem
    apply hg
    obtain ⟨p, hp, rfl⟩ := List.mem_map.mp hmem
    exact List.mem_map_of_mem (List.mem_of_mem_filter hp)
  · have hmem := mem_entries_iff.mpr hg
    by_cases hf : f k v = true
    · rw [Option.filter_some, if_pos hf]
      exact mem_entries_iff.mp (List.mem_filter.mpr ⟨hmem, hf⟩)
    · rw [Option.filter_some, if_neg hf, get?_eq_none_iff, ← Bool.not_eq_true, has_iff_mem_keys]
      intro hk
      obtain ⟨⟨k', v'⟩, hp, rfl⟩ := List.mem_map.mp hk
      obtain ⟨hp1, hp2⟩ := List.mem_filter.mp hp
      rw [mem_entries_iff.mp hp1] at hg
      obtain rfl := Option.some.inj hg
      exact hf hp2

theorem get?_of_filter {f : K → V → Bool} (h : (d.filter f).get? k = some v) :
    d.get? k = some v := by
  rw [get?_filter] at h
  exact Option.eq_some_of_filter_eq_some h

theorem get?_of_delete {k' : K} (h : (d.delete k).get? k' = some v) : d.get? k' = some v :=
  get?_of_filter (f := fun p _ => !(p == k)) h

theorem get?_delete (d : Dict K V) (k k' : K) :
    (d.delete k).get? k' = if k == k' then none else d.get? k' := by
  have h := get?_filter d (fun p _ => !(p == k)) k'
  rw [show d.filter (fun p _ => !(p == k)) = d.delete k from rfl] at h
  rw [h]
  by_cases hk : k = k'
  · subst hk
    cases d.get? k <;> simp
  · rw [if_neg (by simpa using hk)]
    cases hg : d.get? k' <;> simp [Ne.symm hk]

theorem get?_mapValues {W : Type} (d : Dict K V) (f : K → V → W) (k : K) :
    (d.mapValues f).get? k = (d.get? k).map (f k) := by
  have hfind : (d.entries.map fun p => (p.1, f p.1 p.2)).find? (fun p => p.1 == k) =
      (d.entries.find? fun p => p.1 == k).map fun p => (p.1, f p.1 p.2) := List.find?_map ..
  rw [get?, mapValues, hfind, Option.map_map, get?, Option.map_map]
  cases hf : d.entries.find? (fun p => p.1 == k) with
  | none => rfl
  | some p =>
    have hpk : p.1 = k := by simpa using List.find?_some hf
    simp [hpk]

theorem get?_setAll_of_notMem {l : List (K × V)} (h : k ∉ l.map Prod.fst)
    (d : Dict K V) : (d.setAll l).get? k = d.get? k := by
  induction l generalizing d with
  | nil => rfl
  | cons p l ih =>
    rw [List.map_cons, List.mem_cons, not_or] at h
    change ((d.set p.1 p.2).setAll l).get? k = _
    rw [ih h.2, get?_set_of_ne _ _ (Ne.symm h.1)]

theorem get?_setAll_of_mem {l : List (K × V)} (hl : (l.map Prod.fst).Nodup)
    (h : (k, v) ∈ l) (d : Dict K V) : (d.setAll l).get? k = some v := by
  induction l generalizing d with
  | nil => cases h
  | cons p l ih =>
    rw [List.map_cons, List.nodup_cons] at hl
    change ((d.set p.1 p.2).setAll l).get? k = _
    rcases List.mem_cons.mp h with rfl | h
    · rw [get?_setAll_of_notMem hl.1, get?_set_self]
    · exact ih hl.2 h _

theorem get?_ofProps (l : List (K × V)) (k : K) :
    (ofProps l).get? k = (l.find? fun p => p.1 == k).map Prod.snd := by
  have key : ∀ d : Dict K V, (l.foldl setNew d).get? k =
      (d.get? k).or ((l.find? fun p => p.1 == k).map Prod.snd) := by
    induction l with
    | nil => exact fun d => (Option.or_none).symm
    | cons p l ih =>
      intro d
      rw [List.foldl_cons, ih, List.find?_cons, setNew, has_eq_isSome]
      by_cases hp : p.1 = k
      · subst hp
        cases hg : d.get? p.1 <;> simp [hg]
      · have hbeq : (p.1 == k) = false := by simpa using hp
        rw [hbeq]
        split
        · rfl
        · rw [get?_set_of_ne _ _ hp]
  exact (key empty).trans (Option.none_or)

end Dict

/-! ### Sets -/

/-- `set.add(x)` on the elements of a set: a new element goes last. -/
def insertNew {α : Type} [BEq α] (l : List α) (x : α) : List α :=
  if l.any (· == x) then l else l ++ [x]

/-- `[...new Set(l)]`. -/
def unique {α : Type} [BEq α] (l : List α) : List α := l.foldl insertNew []

section

variable {α : Type} [BEq α]

/-- No two elements of a list are equal to the language. -/
def Distinct (l : List α) : Prop := l.Pairwise fun a b => (a == b) = false

variable {l : List α} {y : α}

theorem mem_of_mem_insertNew {x : α} (h : y ∈ insertNew l x) : y ∈ l ∨ y = x := by
  unfold insertNew at h
  split at h
  · exact .inl h
  · simpa using h

theorem distinct_insertNew (h : Distinct l) (x : α) : Distinct (insertNew l x) := by
  unfold insertNew
  split
  · exact h
  · rename_i hx
    rw [Distinct, List.pairwise_append]
    refine ⟨h, List.pairwise_singleton _ _, fun a ha b hb => ?_⟩
    obtain rfl := List.mem_singleton.mp hb
    simp only [List.any_eq_true, not_exists, not_and, Bool.not_eq_true] at hx
    exact hx a ha

theorem mem_of_mem_foldl_insertNew {acc : List α} (h : y ∈ l.foldl insertNew acc) :
    y ∈ acc ∨ y ∈ l := by
  induction l generalizing acc with
  | nil => exact .inl h
  | cons x l ih =>
    rcases ih h with hy | hy
    · rcases mem_of_mem_insertNew hy with hy | rfl
      · exact .inl hy
      · exact .inr (List.mem_cons_self ..)
    · exact .inr (List.mem_cons_of_mem _ hy)

theorem mem_insertNew_of_mem (h : y ∈ l) (x : α) : y ∈ insertNew l x := by
  unfold insertNew
  split
  · exact h
  · exact List.mem_append_left _ h

theorem mem_foldl_insertNew_of_mem {acc : List α} (h : y ∈ acc) (l : List α) :
    y ∈ l.foldl insertNew acc := by
  induction l generalizing acc with
  | nil => exact h
  | cons x l ih => exact ih (mem_insertNew_of_mem h x)

/-- An element that equals nothing but itself is never left out for another. -/
theorem mem_foldl_insertNew_self {x : α} (hx : ∀ y, (y == x) = true → y = x)
    (h : x ∈ l) (acc : List α) : x ∈ l.foldl insertNew acc := by
  induction l generalizing acc with
  | nil => cases h
  | cons y l ih =>
    rcases List.mem_cons.mp h with rfl | h
    · refine mem_foldl_insertNew_of_mem ?_ l
      unfold insertNew
      split
      · rename_i hany
        obtain ⟨y, hy, hxy⟩ := List.any_eq_true.mp hany
        exact hx y hxy ▸ hy
      · simp
    · exact ih h _

/-- A set is itself once it is made a set. -/
theorem unique_of_distinct (h : Distinct l) : unique l = l := by
  induction l using List.reverseRecOn with
  | nil => rfl
  | append_singleton l x ih =>
    obtain ⟨hl, -, hx⟩ := List.pairwise_append.mp h
    have hnew : l.any (· == x) = false :=
      List.any_eq_false.mpr fun y hy => by simpa using hx y hy x (List.mem_singleton_self x)
    rw [unique, List.foldl_concat, ← unique, ih hl, insertNew, hnew]
    rfl

variable [LawfulBEq α]

theorem distinct_iff_nodup : Distinct l ↔ l.Nodup := by
  simp [Distinct, List.Nodup]

theorem mem_foldl_insertNew {acc : List α} :
    y ∈ l.foldl insertNew acc ↔ y ∈ acc ∨ y ∈ l := by
  refine ⟨mem_of_mem_foldl_insertNew, fun h => ?_⟩
  rcases h with h | h
  · exact mem_foldl_insertNew_of_mem h l
  · exact mem_foldl_insertNew_self (fun _ => eq_of_beq) h acc

@[simp] theorem mem_unique : y ∈ unique l ↔ y ∈ l := by
  rw [unique, mem_foldl_insertNew]
  simp

end

/-! ### Renaming

A function that keeps equality carries maps and sets over one type to maps and sets over another,
and every operation with them. -/

section

variable {K L V W : Type} [BEq K] [BEq L] {f : K → L}

theorem insertNew_map (hf : ∀ a b, (f a == f b) = (a == b)) (l : List K) (x : K) :
    insertNew (l.map f) (f x) = (insertNew l x).map f := by
  have hany : (l.map f).any (· == f x) = l.any (· == x) := by
    rw [List.any_map]
    congr 1
    funext a
    exact hf a x
  rw [insertNew, insertNew, hany]
  split <;> simp

theorem foldl_insertNew_map (hf : ∀ a b, (f a == f b) = (a == b)) (l acc : List K) :
    (l.map f).foldl insertNew (acc.map f) = (l.foldl insertNew acc).map f := by
  induction l generalizing acc with
  | nil => rfl
  | cons x l ih => rw [List.map_cons, List.foldl_cons, List.foldl_cons, insertNew_map hf, ih]

theorem unique_map (hf : ∀ a b, (f a == f b) = (a == b)) (l : List K) :
    unique (l.map f) = (unique l).map f :=
  foldl_insertNew_map hf l []

/-- A map with its keys and values renamed. -/
def Dict.rename (hf : ∀ a b, (f a == f b) = (a == b)) (g : V → W) (d : Dict K V) : Dict L W :=
  ⟨d.entries.map fun p => (f p.1, g p.2), by
    rw [List.pairwise_map]
    exact d.distinct.imp fun h => by rw [hf]; exact h⟩

theorem Dict.keys_rename (hf : ∀ a b, (f a == f b) = (a == b)) (g : V → W) (d : Dict K V) :
    (d.rename hf g).keys = d.keys.map f := by
  rw [Dict.keys, Dict.keys, Dict.rename, List.map_map, List.map_map]
  rfl

theorem Dict.rename_has (hf : ∀ a b, (f a == f b) = (a == b)) (g : V → W) (d : Dict K V) (k : K) :
    (d.rename hf g).has (f k) = d.has k := by
  rw [Dict.has, Dict.has, Dict.rename, List.any_map]
  congr 1
  funext p
  exact hf p.1 k

theorem Dict.rename_get? (hf : ∀ a b, (f a == f b) = (a == b)) (g : V → W) (d : Dict K V) (k : K) :
    (d.rename hf g).get? (f k) = (d.get? k).map g := by
  have hfind : (d.entries.map fun p => (f p.1, g p.2)).find? (fun p => p.1 == f k) =
      (d.entries.find? fun p => p.1 == k).map fun p => (f p.1, g p.2) := by
    rw [List.find?_map]
    congr 2
    funext p
    exact hf p.1 k
  rw [Dict.get?, Dict.rename, hfind, Option.map_map, Dict.get?, Option.map_map]
  rfl

theorem Dict.rename_set (hf : ∀ a b, (f a == f b) = (a == b)) (g : V → W) (d : Dict K V) (k : K)
    (v : V) : (d.rename hf g).set (f k) (g v) = (d.set k v).rename hf g := by
  apply Dict.ext
  change _ = (d.set k v).entries.map fun p => (f p.1, g p.2)
  rw [Dict.entries_set, Dict.entries_set, Dict.rename_has]
  split
  · change (d.entries.map _).map _ = (d.entries.map _).map _
    rw [List.map_map, List.map_map]
    refine List.map_congr_left fun p _ => ?_
    simp only [Function.comp_apply, Dict.put, hf]
    split <;> rfl
  · simp [Dict.rename]

end

end Js
