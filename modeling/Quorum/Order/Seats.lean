import Quorum.Order.Shared

/-!
# Seats that are taken in the order of a log

A number of seats is taken and given back: a seat is granted as long as one is free (`seat`).  Devices
that share a log take seats for their owners at once and then send this to the others, so a device may
grant a seat that is gone in the order of the log.

If a device acts in turn, or no seat that was taken in what it has not read was refused and there is
one for its owner as well (`Calm`), then nobody is refused on one device and granted a seat on
another: a device that has read the log has seated whom the log has (`Along.seated_iff`).
-/

variable {ν : Type} [DecidableEq ν]

/-- Take a seat, or give it back. -/
def seat (seats : ℕ) (l : List ν) (who : ν) (taking : Bool) : List ν :=
  if taking then if who ∈ l ∨ seats ≤ l.length then l else l ++ [who]
  else l.filter (· ≠ who)

section

variable {seats : ℕ} {l l' : List ν} {who x : ν} {taking : Bool}

theorem mem_seat_of_ne (h : x ≠ who) : x ∈ seat seats l who taking ↔ x ∈ l := by
  unfold seat
  split_ifs <;> simp [h]

theorem mem_seat_self :
    who ∈ seat seats l who taking ↔ taking = true ∧ (who ∈ l ∨ l.length < seats) := by
  unfold seat
  split_ifs with htaking hkept
  · simp only [htaking, true_and, ← not_le]
    tauto
  · simp only [htaking, true_and, ← not_le]
    simp only [List.mem_append, List.mem_singleton, or_true, true_iff]
    tauto
  · simp [htaking]

theorem nodup_seat (h : l.Nodup) : (seat seats l who taking).Nodup := by
  unfold seat
  split_ifs with _ hkept
  · exact h
  · refine h.append (List.nodup_singleton who) (List.disjoint_singleton.mpr ?_)
    exact fun hmem => hkept (.inl hmem)
  · exact h.filter _

theorem length_seat_le (h : l.length ≤ seats) : (seat seats l who taking).length ≤ seats := by
  unfold seat
  split_ifs with _ hkept
  · exact h
  · rw [List.length_append, List.length_singleton]
    omega
  · exact (List.length_filter_le _ _).trans h

omit [DecidableEq ν] in
/-- Names without repetition need the seats of their set. -/
theorem length_eq_of_mem_iff (hl : l.Nodup) (hl' : l'.Nodup) (h : ∀ x, x ∈ l ↔ x ∈ l') :
    l.length = l'.length :=
  ((List.perm_ext_iff_of_nodup hl hl').mpr h).length_eq

end

/-! ### The order of the log -/

section

variable {ι : Type} (owner : ι → ν) (seats : ℕ) (start : List ν)

/-- The names that are seated after some messages. -/
def seated (log : List (ι × Bool)) : List ν :=
  log.foldl (fun l m => seat seats l (owner m.1) m.2) start

theorem seated_concat (log : List (ι × Bool)) (m : ι × Bool) :
    seated owner seats start (log ++ [m]) =
      seat seats (seated owner seats start log) (owner m.1) m.2 := by
  rw [seated, List.foldl_append]
  rfl

variable {owner seats start} {log : List (ι × Bool)}

theorem nodup_seated (h : start.Nodup) : (seated owner seats start log).Nodup :=
  foldl_preserves (P := List.Nodup) (fun _ _ hl => nodup_seat hl) log h

theorem length_seated_le (h : start.length ≤ seats) :
    (seated owner seats start log).length ≤ seats :=
  foldl_preserves (P := fun l : List ν => l.length ≤ seats) (fun _ _ hl => length_seat_le hl) log h

/-- Messages about other names. -/
theorem mem_seated_append {x : ν} {l : List (ι × Bool)} (h : ∀ m ∈ l, x ≠ owner m.1) :
    x ∈ seated owner seats start (log ++ l) ↔ x ∈ seated owner seats start log := by
  induction l using List.reverseRecOn with
  | nil => rw [List.append_nil]
  | append_singleton l m ih =>
    rw [← List.append_assoc, seated_concat, mem_seat_of_ne (h m (by simp))]
    exact ih fun m' hm' => h m' (List.mem_append_left _ hm')

/-! ### Devices -/

variable (owner seats) in
/-- Devices that take seats for their owners. -/
def seating (ρ : Type) : Protocol ι (List ν) Bool Bool ρ where
  act i l taking := seat seats l (owner i) taking
  send _ _ taking := [taking]
  apply j _ l taking := seat seats l (owner j) taking

variable (owner seats start) in
/-- A device acts in turn, or every seat that was taken in what it has not read is granted in the
order of the log and, if it takes a seat, its owner has one there or one is free all along. -/
def Calm {σ ρ : Type} (s : Shared ι σ Bool) : Shared.Action ι Bool ρ → Prop
  | .act i taking => (∀ m ∈ s.unread i, m.1 = i) ∨
      (∀ q m, s.read i ≤ q → s.log[q]? = some m → m.1 ≠ i → m.2 = true →
        owner m.1 ∈ seated owner seats start (s.log.take (q + 1))) ∧
      (taking = true → ∀ n, s.read i ≤ n → n ≤ s.log.length →
        owner i ∈ seated owner seats start (s.log.take n) ∨
          (seated owner seats start (s.log.take n)).length < seats)
  | .read _ _ => True

/-- Whether a device acts calmly is seen in the log. -/
theorem Calm.of_simulates {σ τ ρ : Type} {R : σ → τ → Prop} {s : Shared ι σ Bool}
    {t : Shared ι τ Bool} (h : Simulates R s t) {a : Shared.Action ι Bool ρ}
    (ha : Calm owner seats start s a) : Calm owner seats start t a := by
  cases a with
  | act i taking =>
    unfold Calm Shared.unread at ha ⊢
    rw [← h.log, ← h.read]
    exact ha
  | read i c => trivial

variable (owner seats start) in
/-- Of the others a device has seated those that the log has up to where it has read, and its owner
if the whole log has.  A seat that was taken later is granted on both, unless the device has sent
nothing since. -/
structure Seated (log : List (ι × Bool)) (i : ι) (r : ℕ) (l : List ν) : Prop where
  nodup : l.Nodup
  read_le : r ≤ log.length
  others : ∀ x, x ≠ owner i → (x ∈ l ↔ x ∈ seated owner seats start (log.take r))
  own : owner i ∈ l ↔ owner i ∈ seated owner seats start log
  fits : ∀ q m, r ≤ q → log[q]? = some m → m.1 ≠ i → m.2 = true →
    (∀ m' ∈ log.drop q, m'.1 ≠ i) ∨
      owner m.1 ∈ seated owner seats start (log.take (q + 1)) ∧
        (owner i ∈ seated owner seats start log →
          owner i ∈ seated owner seats start (log.take (q + 1)) ∨
            (seated owner seats start (log.take (q + 1))).length < seats)

variable {i j : ι} {r : ℕ} {l : List ν}

/-- A device that has nothing of the others to read has seated what the log has. -/
theorem Seated.mem_iff (h : Seated owner seats start log i r l) (hturn : ∀ m ∈ log.drop r, m.1 = i)
    (x : ν) : x ∈ l ↔ x ∈ seated owner seats start log := by
  by_cases hx : x = owner i
  · subst hx
    exact h.own
  · rw [h.others x hx]
    conv_rhs => rw [← List.take_append_drop r log]
    refine (mem_seated_append fun m hm => ?_).symm
    rw [hturn m hm]
    exact hx

theorem seated_take_succ {q : ℕ} {m : ι × Bool} (hget : log[q]? = some m) :
    seated owner seats start (log.take (q + 1)) =
      seat seats (seated owner seats start (log.take q)) (owner m.1) m.2 := by
  rw [List.take_add_one, hget, Option.toList_some, seated_concat]

/-- A device passes over its own message. -/
theorem Seated.pass (h : Seated owner seats start log i r l) {m : ι × Bool}
    (hget : log[r]? = some m) (hm : m.1 = i) : Seated owner seats start log i (r + 1) l where
  nodup := h.nodup
  read_le := (List.getElem?_eq_some_iff.mp hget).1
  others x hx := by
    rw [seated_take_succ hget, hm, mem_seat_of_ne hx]
    exact h.others x hx
  own := h.own
  fits q m hq := h.fits q m (Nat.le_of_succ_le hq)

variable (howner : Function.Injective owner) (hstart : start.Nodup) (hfree : start.length ≤ seats)

include howner in
/-- Messages of others say nothing of the owner of a device. -/
theorem own_seated_append {l : List (ι × Bool)} (h : ∀ m ∈ l, m.1 ≠ i) :
    owner i ∈ seated owner seats start (log ++ l) ↔ owner i ∈ seated owner seats start log :=
  mem_seated_append fun m hm heq => h m hm (howner heq).symm

include howner hstart hfree in
/-- **A seat is granted on the device if it is granted in the log.** -/
theorem Seated.granted_iff (h : Seated owner seats start log i r l) {m : ι × Bool}
    (hget : log[r]? = some m) (hne : m.1 ≠ i) :
    owner m.1 ∈ seat seats l (owner m.1) m.2 ↔
      owner m.1 ∈ seated owner seats start (log.take (r + 1)) := by
  have hown : owner m.1 ≠ owner i := fun heq => hne (howner heq)
  have hmem := h.others _ hown
  rw [seated_take_succ hget, mem_seat_self, mem_seat_self, hmem]
  refine and_congr_right fun htaking => ?_
  rcases h.fits _ m le_rfl hget hne htaking with hlast | ⟨hgranted, hroom⟩
  · -- the device has sent nothing since: it has seated what the log has up to here
    have hsame : ∀ x, x ∈ l ↔ x ∈ seated owner seats start (log.take r) := by
      intro x
      by_cases hx : x = owner i
      · subst hx
        rw [h.own]
        conv_lhs => rw [← List.take_append_drop r log]
        exact own_seated_append howner hlast
      · exact h.others x hx
    rw [length_eq_of_mem_iff h.nodup (nodup_seated hstart) hsame]
  · -- with the newcomer the device seats nobody but those whom the log has, and its owner
    have hgranted' := hgranted
    rw [seated_take_succ hget, mem_seat_self] at hgranted'
    refine iff_of_true ?_ hgranted'.2
    by_cases hin : owner m.1 ∈ seated owner seats start (log.take r)
    · exact .inl hin
    · right
      have hnew : owner m.1 ∉ l := fun hmem' => hin (hmem.mp hmem')
      have hnodup : (owner m.1 :: l).Nodup := List.nodup_cons.mpr ⟨hnew, h.nodup⟩
      have hsub : ∀ y ∈ owner m.1 :: l,
          y = owner i ∨ y ∈ seated owner seats start (log.take (r + 1)) := by
        intro y hy
        rcases List.mem_cons.mp hy with rfl | hy
        · exact .inr hgranted
        · refine or_iff_not_imp_left.mpr fun hyi => ?_
          have hym : y ≠ owner m.1 := by
            rintro rfl
            exact hnew hy
          rw [seated_take_succ hget, mem_seat_of_ne hym]
          exact (h.others y hyi).mp hy
      -- so there is room, by counting them
      have hcard : ∀ l', owner m.1 :: l ⊆ l' → l'.length ≤ seats → l.length < seats :=
        fun l' hl hle => (List.subperm_of_subset hnodup hl).length_le.trans hle
      have hcap : (seated owner seats start (log.take (r + 1))).length ≤ seats :=
        length_seated_le hfree
      by_cases hi : owner i ∈ l
      · rcases hroom (h.own.mp hi) with hseat | hseat
        · refine hcard _ (fun y hy => (hsub y hy).elim (fun heq => ?_) id) hcap
          rw [heq]
          exact hseat
        · refine hcard (owner i :: _) (fun y hy => ?_) (Nat.succ_le_of_lt hseat)
          exact List.mem_cons.mpr (hsub y hy)
      · refine hcard _ (fun y hy => (hsub y hy).elim (fun heq => ?_) id) hcap
        subst heq
        rcases List.mem_cons.mp hy with heq | hy
        · exact absurd heq.symm hown
        · exact absurd hy hi

include howner hstart hfree in
/-- A device reads a message of another. -/
theorem Seated.read (h : Seated owner seats start log i r l) {m : ι × Bool}
    (hget : log[r]? = some m) (hne : m.1 ≠ i) :
    Seated owner seats start log i (r + 1) (seat seats l (owner m.1) m.2) where
  nodup := nodup_seat h.nodup
  read_le := (List.getElem?_eq_some_iff.mp hget).1
  others x hx := by
    by_cases hxm : x = owner m.1
    · subst hxm
      exact h.granted_iff howner hstart hfree hget hne
    · rw [seated_take_succ hget, mem_seat_of_ne hxm, mem_seat_of_ne hxm]
      exact h.others x hx
  own := by
    rw [mem_seat_of_ne fun heq => hne (howner heq).symm]
    exact h.own
  fits q m hq := h.fits q m (Nat.le_of_succ_le hq)

include howner in
/-- Another device sends a message. -/
theorem Seated.grow (h : Seated owner seats start log j r l) {m : ι × Bool} (hne : m.1 ≠ j) :
    Seated owner seats start (log ++ [m]) j r l where
  nodup := h.nodup
  read_le := h.read_le.trans (by simp)
  others x hx := by
    rw [List.take_append_of_le_length h.read_le]
    exact h.others x hx
  own := by
    rw [own_seated_append howner (by simpa using hne)]
    exact h.own
  fits q m' hq hget hm' htaking := by
    rcases Nat.lt_or_ge q log.length with hlt | hge
    · rw [List.getElem?_append_left hlt] at hget
      rw [List.drop_append_of_le_length hlt.le, List.take_append_of_le_length hlt,
        own_seated_append howner (by simpa using hne)]
      refine (h.fits q m' hq hget hm' htaking).imp_left fun hlast m'' hm'' => ?_
      rcases List.mem_append.mp hm'' with hold | hnew
      · exact hlast m'' hold
      · rw [List.mem_singleton.mp hnew]
        exact hne
    · refine .inl fun m'' hm'' => ?_
      rw [List.drop_append, List.drop_eq_nil_of_le hge, List.nil_append] at hm''
      rw [List.mem_singleton.mp (List.mem_of_mem_drop hm'')]
      exact hne

include hstart hfree in
/-- The owner of a device that acts calmly gets a seat on the device if they get one in the log. -/
theorem Seated.free_iff (h : Seated owner seats start log i r l)
    (hcalm : (∀ m ∈ log.drop r, m.1 = i) ∨ ∀ n, r ≤ n → n ≤ log.length →
      owner i ∈ seated owner seats start (log.take n) ∨
        (seated owner seats start (log.take n)).length < seats) :
    (owner i ∈ l ∨ l.length < seats) ↔ owner i ∈ seated owner seats start log ∨
      (seated owner seats start log).length < seats := by
  rcases hcalm with hturn | hroom
  · rw [h.own, length_eq_of_mem_iff h.nodup (nodup_seated hstart) (h.mem_iff hturn)]
  · have hlog := hroom log.length h.read_le le_rfl
    rw [List.take_length] at hlog
    refine iff_of_true (or_iff_not_imp_left.mpr fun hnew => ?_) hlog
    have hsub : l ⊆ seated owner seats start (log.take r) := by
      intro x hx
      refine (h.others x ?_).mp hx
      rintro rfl
      exact hnew hx
    rcases hroom r le_rfl h.read_le with hin | hlt
    · have hcons : owner i :: l ⊆ seated owner seats start (log.take r) :=
        List.cons_subset.mpr ⟨hin, hsub⟩
      have hnodup : (owner i :: l).Nodup := List.nodup_cons.mpr ⟨hnew, h.nodup⟩
      exact (List.subperm_of_subset hnodup hcons).length_le.trans (length_seated_le hfree)
    · exact (List.subperm_of_subset h.nodup hsub).length_le.trans_lt hlt

include hstart hfree in
/-- A device acts calmly. -/
theorem Seated.act (h : Seated owner seats start log i r l) {taking : Bool}
    (hcalm : (∀ m ∈ log.drop r, m.1 = i) ∨
      (∀ q m, r ≤ q → log[q]? = some m → m.1 ≠ i → m.2 = true →
        owner m.1 ∈ seated owner seats start (log.take (q + 1))) ∧
      (taking = true → ∀ n, r ≤ n → n ≤ log.length →
        owner i ∈ seated owner seats start (log.take n) ∨
          (seated owner seats start (log.take n)).length < seats)) :
    Seated owner seats start (log ++ [(i, taking)]) i r (seat seats l (owner i) taking) where
  nodup := nodup_seat h.nodup
  read_le := h.read_le.trans (by simp)
  others x hx := by
    rw [List.take_append_of_le_length h.read_le, mem_seat_of_ne hx]
    exact h.others x hx
  own := by
    rw [seated_concat, mem_seat_self, mem_seat_self]
    refine and_congr_right fun htaking => h.free_iff hstart hfree ?_
    exact hcalm.imp_right fun hroom => hroom.2 htaking
  fits q m hq hget hne htake := by
    rcases Nat.lt_or_ge q log.length with hlt | hge
    · rw [List.getElem?_append_left hlt] at hget
      rcases hcalm with hturn | ⟨hgranted, hroom⟩
      · refine absurd (hturn m (List.mem_of_getElem? (i := q - r) ?_)) hne
        rw [List.getElem?_drop, Nat.add_sub_cancel' hq, hget]
      · rw [List.take_append_of_le_length hlt, seated_concat, mem_seat_self]
        exact .inr ⟨hgranted q m hq hget hne htake,
          fun hin => hroom hin.1 (q + 1) (hq.trans (Nat.le_succ q)) hlt⟩
    · -- the last message is its own
      rw [List.getElem?_append_right hge] at hget
      cases List.mem_singleton.mp (List.mem_of_getElem? hget)
      exact absurd rfl hne

variable [DecidableEq ι] {ρ : Type} {s : Shared ι (List ν) Bool}

include howner hstart hfree in
theorem Seated.step (a : Shared.Action ι Bool ρ)
    (h : ∀ i, Seated owner seats start s.log i (s.read i) (s.device i))
    (hcalm : Calm owner seats start s a) (j : ι) :
    Seated owner seats start ((seating owner seats ρ).step s a).log j
      (((seating owner seats ρ).step s a).read j) (((seating owner seats ρ).step s a).device j) := by
  cases a with
  | act i taking =>
    change Seated owner seats start (s.log ++ [(i, taking)]) j (s.read j)
      (Function.update s.device i (seat seats (s.device i) (owner i) taking) j)
    by_cases hj : j = i
    · subst hj
      rw [Function.update_self]
      exact (h j).act hstart hfree hcalm
    · rw [Function.update_of_ne hj]
      exact (h j).grow howner (Ne.symm hj)
  | read i c =>
    cases hget : s.log[s.read i]? with
    | none =>
      simp only [Protocol.step, hget]
      exact h j
    | some m =>
      simp only [Protocol.step, Protocol.receive, hget]
      by_cases hj : j = i
      · subst hj
        rw [Function.update_self, Function.update_self]
        split
        next hmine => exact (h j).pass hget hmine
        next hother => exact (h j).read howner hstart hfree hget hother
      · rw [Function.update_of_ne hj, Function.update_of_ne hj]
        exact h j

end

/-- **A device that has read the log has seated whom the log has**, if all devices act calmly. -/
theorem Along.seated_iff {ι ρ : Type} [DecidableEq ι] {owner : ι → ν} {seats : ℕ}
    {start : List ν} (howner : Function.Injective owner) (hstart : start.Nodup)
    (hfree : start.length ≤ seats) {s : Shared ι (List ν) Bool} {l : List (Shared.Action ι Bool ρ)}
    (h : Along (seating owner seats ρ).step (Calm owner seats start) s l) (hlog : s.log = [])
    (hread : ∀ i, s.read i = 0) (hdevice : ∀ i, s.device i = start) {i : ι}
    (hi : (l.foldl (seating owner seats ρ).step s).read i =
      (l.foldl (seating owner seats ρ).step s).log.length) :
    ((l.foldl (seating owner seats ρ).step s).device i).Nodup ∧
      ∀ x, x ∈ (l.foldl (seating owner seats ρ).step s).device i ↔
        x ∈ seated owner seats start (l.foldl (seating owner seats ρ).step s).log := by
  have hbegin : ∀ i, Seated owner seats start s.log i (s.read i) (s.device i) := by
    intro i
    rw [hlog, hread, hdevice]
    refine ⟨hstart, le_rfl, fun _ _ => Iff.rfl, Iff.rfl, fun q m _ hget => ?_⟩
    cases hget
  have hend := h.preserves
    (P := fun s => ∀ i, Seated owner seats start s.log i (s.read i) (s.device i))
    (fun s a hs hok => Seated.step howner hstart hfree a hs hok) hbegin
  refine ⟨(hend i).nodup, (hend i).mem_iff fun m hm => ?_⟩
  rw [hi, List.drop_length] at hm
  cases hm
