import Quorum.Log

/-!
# Sender groups

A list of messages is shown as day dividers, system chips and groups of lines under one header
(`fold.js`).  The header carries the badge of the sender, so it must not stand over a line that it
does not vouch for: a group is of one sender, of one standing of the signatures and of one day, and
each of its lines follows the one before it within five minutes.

That much every group carries along as a proof.  What remains is said of the whole list: it is shown
line by line in its order, and two neighbours that may share a header do (`fold_vouches`).
-/

namespace Js.Number

/-- `a - b`. -/
def sub : Number → Number → Number
  | nan, _ => nan
  | _, nan => nan
  | inf a, inf b => if a = b then nan else inf a
  | inf a, fin _ => inf a
  | fin _, inf b => inf !b
  | fin a, fin b => ofRat (a.val - b.val)

end Js.Number

namespace Quorum

open Js

/-- `GROUP_WINDOW`, in milliseconds. -/
def groupWindow : Number := .ofRat (5 * 60 * 1000)

/-- `m.auth ?? 'signed'`. -/
def Message.standing (m : Message) : Verdict := m.auth.getD .signed

/-- The message follows the other within the window. -/
def Message.soonAfter (m prior : Message) : Bool := (m.ts.sub prior.ts).lt groupWindow

/-! ### Groups -/

structure Group where
  sender : Str
  ts : Number
  last : Number
  lines : List Message
  auth : Verdict
  key : Str
  sole : ∀ m ∈ lines, m.sender = sender ∧ m.standing = auth ∧ m.system = false
  close : lines.IsChain fun prior m => m.soonAfter prior = true
  ending : lines.getLast?.map Message.ts = some last

namespace Group

def start (m : Message) (key : Str) (hm : m.system = false) : Group where
  sender := m.sender
  ts := m.ts
  last := m.ts
  lines := [m]
  auth := m.standing
  key := key
  sole := by simpa using hm
  close := .singleton _
  ending := rfl

/-- The message may go under the header. -/
def Admits (g : Group) (m : Message) : Prop :=
  g.sender = m.sender ∧ g.auth = m.standing ∧ (m.ts.sub g.last).lt groupWindow = true

instance (g : Group) (m : Message) : Decidable (g.Admits m) :=
  inferInstanceAs (Decidable (_ ∧ _ ∧ _))

def join (g : Group) (m : Message) (hm : m.system = false) (h : g.Admits m) : Group where
  sender := g.sender
  ts := g.ts
  last := m.ts
  lines := g.lines ++ [m]
  auth := g.auth
  key := g.key
  sole := by
    intro m' hm'
    rcases List.mem_append.mp hm' with hm' | hm'
    · exact g.sole m' hm'
    · rw [List.mem_singleton.mp hm']
      exact ⟨h.1.symm, h.2.1.symm, hm⟩
  close := by
    refine List.isChain_append.mpr ⟨g.close, .singleton m, fun prior hprior m' hm' => ?_⟩
    have hlast : prior.ts = g.last := by
      have hending := g.ending
      rw [Option.mem_def.mp hprior] at hending
      exact Option.some.inj hending
    obtain rfl := Option.some.inj hm'
    rw [Message.soonAfter, hlast]
    exact h.2.2
  ending := by simp

end Group

/-! ### Rows -/

inductive Row (Label : Type)
  | day (label : Label) (key : Str)
  | system (m : Message) (key : Str)
  | group (g : Group)

def Row.lines {Label : Type} : Row Label → List Message
  | .day _ _ => []
  | .system m _ => [m]
  | .group g => g.lines

/-- The state of the loop.  The source changes the open group after it has put it out; it is the
last row then, so here it is kept beside the rows before it. -/
structure Folding (Label : Type) where
  done : List (Row Label)
  day : Option Label
  group : Option Group

namespace Folding

variable {Label : Type}

/-- `out`. -/
def out (s : Folding Label) : List (Row Label) := s.done ++ s.group.toList.map Row.group

/-- The key of a row, from a letter, the time and the number of rows before. -/
def key (s : Folding Label) (letter : Char) (m : Message) : Str :=
  unit letter :: (m.ts.toStr ++ Value.indexName s.out.length)

def push (s : Folding Label) (row : Row Label) : Folding Label :=
  { s with done := s.out ++ [row], group := none }

def startGroup (s : Folding Label) (m : Message) (hm : m.system = false) : Folding Label :=
  { s with done := s.out, group := some (.start m (s.key 'g' m) hm) }

def add (s : Folding Label) (m : Message) : Folding Label :=
  if hm : m.system = true then s.push (.system m (s.key 's' m))
  else
    match s.group with
    | some g =>
      if h : g.Admits m then
        { s with group := some (g.join m (Bool.eq_false_of_not_eq_true hm) h) }
      else s.startGroup m (Bool.eq_false_of_not_eq_true hm)
    | none => s.startGroup m (Bool.eq_false_of_not_eq_true hm)

variable [DecidableEq Label]

/-- A divider, if the day is another. -/
def turn (s : Folding Label) (label : Label) (m : Message) : Folding Label :=
  if s.day = some label then s
  else { s.push (.day label (unit 'd' :: m.ts.toStr)) with day := some label }

def step (dayLabel : Number → Label) (s : Folding Label) (m : Message) : Folding Label :=
  (s.turn (dayLabel m.ts) m).add m

end Folding

/-- `fold(messages)`. -/
def fold {Label : Type} [DecidableEq Label] (dayLabel : Number → Label) (messages : List Message) :
    List (Row Label) :=
  (messages.foldl (Folding.step dayLabel) ⟨[], none, none⟩).out

/-! ### What every turn keeps -/

namespace Folding

variable {Label : Type}

def shown (s : Folding Label) : List Message := s.out.flatMap Row.lines

theorem shown_push (s : Folding Label) (row : Row Label) :
    (s.push row).shown = s.shown ++ row.lines := by
  simp [shown, push, out]

theorem out_startGroup (s : Folding Label) (m : Message) (hm : m.system = false) :
    (s.startGroup m hm).out = s.out ++ [.group (.start m (s.key 'g' m) hm)] := by
  simp [startGroup, out]

/-- What adding a message does to the rows: there is one more, or the last takes it. -/
theorem out_add (s : Folding Label) (m : Message) :
    (∃ row, (s.add m).out = s.out ++ [row] ∧ row.lines = [m]) ∨
      ∃ g g', s.group = some g ∧ (s.add m).out = s.done ++ [.group g'] ∧
        g'.lines = g.lines ++ [m] := by
  unfold add
  by_cases hm : m.system = true
  · rw [dif_pos hm]
    exact .inl ⟨.system m (s.key 's' m), by simp [push, out], rfl⟩
  · have hm' := Bool.eq_false_of_not_eq_true hm
    rw [dif_neg hm]
    cases hgroup : s.group with
    | none => exact .inl ⟨_, out_startGroup s m hm', rfl⟩
    | some g =>
      dsimp only
      by_cases h : g.Admits m
      · rw [dif_pos h]
        exact .inr ⟨g, g.join m hm' h, rfl, by simp [out], rfl⟩
      · rw [dif_neg h]
        exact .inl ⟨_, out_startGroup s m hm', rfl⟩

theorem shown_add (s : Folding Label) (m : Message) : (s.add m).shown = s.shown ++ [m] := by
  unfold shown
  obtain ⟨row, hout, hlines⟩ | ⟨g, g', hgroup, hout, hlines⟩ := out_add s m
  · rw [hout, List.flatMap_append, List.flatMap_singleton, hlines]
  · have hbefore : s.out = s.done ++ [.group g] := by simp [out, hgroup]
    rw [hout, hbefore, List.flatMap_append, List.flatMap_append, List.flatMap_singleton,
      List.flatMap_singleton, List.append_assoc]
    exact congrArg _ hlines

theorem day_add (s : Folding Label) (m : Message) : (s.add m).day = s.day := by
  unfold add
  split
  · rfl
  · split
    · split <;> rfl
    · rfl

/-! ### Days -/

/-- A group is of one day, and the open one of the day that is shown. -/
structure OneDay (dayLabel : Number → Label) (s : Folding Label) : Prop where
  done : ∀ g, Row.group g ∈ s.done → ∃ label, ∀ m ∈ g.lines, dayLabel m.ts = label
  group : ∀ g, s.group = some g → ∀ m ∈ g.lines, some (dayLabel m.ts) = s.day

variable {dayLabel : Number → Label}

theorem oneDay_of_lines {g : Group} {day : Option Label}
    (h : ∀ m ∈ g.lines, some (dayLabel m.ts) = day) :
    ∃ label, ∀ m ∈ g.lines, dayLabel m.ts = label := by
  obtain ⟨first, hfirst, -⟩ := Option.map_eq_some_iff.mp g.ending
  have hmem := List.mem_of_getLast? hfirst
  exact ⟨dayLabel first.ts, fun m hm => Option.some.inj ((h m hm).trans (h first hmem).symm)⟩

variable {s : Folding Label} {m : Message} {pre : List Message} {a b : Message}

theorem OneDay.out (h : OneDay dayLabel s) {g : Group}
    (hg : Row.group g ∈ s.out) : ∃ label, ∀ m ∈ g.lines, dayLabel m.ts = label := by
  rcases List.mem_append.mp hg with hg | hg
  · exact h.done g hg
  · obtain ⟨g', hg', hrow⟩ := List.mem_map.mp hg
    cases hrow
    exact oneDay_of_lines (h.group g (Option.mem_toList.mp hg'))

theorem OneDay.push (h : OneDay dayLabel s) {row : Row Label}
    (hrow : ∀ g, row ≠ .group g) (day : Option Label) :
    OneDay dayLabel { s.push row with day := day } := by
  refine ⟨fun g hg => ?_, by simp [Folding.push]⟩
  rcases List.mem_append.mp hg with hg | hg
  · exact h.out hg
  · exact absurd (List.mem_singleton.mp hg).symm (hrow g)

theorem OneDay.startGroup (h : OneDay dayLabel s)
    (hm : m.system = false) (hday : s.day = some (dayLabel m.ts)) :
    OneDay dayLabel (s.startGroup m hm) := by
  refine ⟨fun g hg => h.out hg, fun g hg m' hm' => ?_⟩
  obtain rfl := Option.some.inj hg
  rw [List.mem_singleton.mp hm']
  exact hday.symm

theorem OneDay.add (h : OneDay dayLabel s)
    (hday : s.day = some (dayLabel m.ts)) : OneDay dayLabel (s.add m) := by
  unfold Folding.add
  by_cases hm : m.system = true
  · rw [dif_pos hm]
    exact h.push (by simp) s.day
  · rw [dif_neg hm]
    cases hgroup : s.group with
    | none => exact h.startGroup _ hday
    | some g =>
      dsimp only
      by_cases hadmits : g.Admits m
      · rw [dif_pos hadmits]
        refine ⟨h.done, fun g' hg' m' hm' => ?_⟩
        obtain rfl := Option.some.inj hg'
        rcases List.mem_append.mp hm' with hm' | hm'
        · exact h.group g hgroup m' hm'
        · rw [List.mem_singleton.mp hm']
          exact hday.symm
      · rw [dif_neg hadmits]
        exact h.startGroup _ hday

/-! ### Neighbours -/

/-- The two messages stand next to each other in one group, after these. -/
def Together (out : List (Row Label)) (pre : List Message) (a b : Message) : Prop :=
  ∃ before g after l r, out = before ++ Row.group g :: after ∧ g.lines = l ++ a :: b :: r ∧
    before.flatMap Row.lines ++ l = pre

theorem Together.append {out : List (Row Label)}
    (h : Together out pre a b) (row : Row Label) : Together (out ++ [row]) pre a b := by
  obtain ⟨before, g, after, l, r, rfl, hlines, hpre⟩ := h
  exact ⟨before, g, after ++ [row], l, r, by simp, hlines, hpre⟩

theorem Together.add
    (h : Together s.out pre a b) (m : Message) : Together (s.add m).out pre a b := by
  obtain ⟨row, hout, -⟩ | ⟨g₀, g', hgroup, hout, hlines'⟩ := out_add s m
  · rw [hout]
    exact h.append row
  · obtain ⟨before, g, after, l, r, hbefore, hlines, hpre⟩ := h
    have hopen : s.out = s.done ++ [.group g₀] := by simp [out, hgroup]
    rw [hout]
    -- the group of the two is the open one, or stands before it
    obtain rfl | ⟨after, row, rfl⟩ := List.eq_nil_or_concat' after
    · obtain ⟨rfl, hg⟩ := List.append_inj' (hopen.symm.trans hbefore) rfl
      cases hg
      exact ⟨s.done, g', [], l, r ++ [m], rfl, by rw [hlines', hlines]; simp, hpre⟩
    · rw [← List.cons_append, ← List.append_assoc] at hbefore
      obtain ⟨hdone, -⟩ := List.append_inj' (hopen.symm.trans hbefore) rfl
      exact ⟨before, g, after ++ [.group g'], l, r, by rw [hdone]; simp, hlines, hpre⟩

/-- After a line its group is open, and it is the last in it. -/
theorem exists_group_add (s : Folding Label) (hm : m.system = false) :
    ∃ g l, (s.add m).group = some g ∧ g.lines = l ++ [m] ∧
      (s.add m).done.flatMap Row.lines ++ l = s.shown := by
  have hm' : ¬ m.system = true := by rw [hm]; exact Bool.false_ne_true
  unfold Folding.add
  rw [dif_neg hm']
  cases hgroup : s.group with
  | none => exact ⟨_, [], rfl, rfl, List.append_nil _⟩
  | some g =>
    dsimp only
    by_cases hadmits : g.Admits m
    · rw [dif_pos hadmits]
      exact ⟨_, g.lines, rfl, rfl, by simp [shown, out, hgroup, Row.lines]⟩
    · rw [dif_neg hadmits]
      exact ⟨_, [], rfl, rfl, List.append_nil _⟩

/-! ### Runs -/

variable [DecidableEq Label]

theorem shown_turn (s : Folding Label) (label : Label) (m : Message) :
    (s.turn label m).shown = s.shown := by
  unfold turn
  split
  · rfl
  · exact (shown_push s _).trans (List.append_nil _)

theorem day_turn (s : Folding Label) (label : Label) (m : Message) :
    (s.turn label m).day = some label := by
  unfold turn
  split
  · assumption
  · rfl

theorem shown_step (dayLabel : Number → Label) (s : Folding Label) (m : Message) :
    (step dayLabel s m).shown = s.shown ++ [m] := by
  rw [step, shown_add, shown_turn]

/-- Every message is shown, in its place. -/
theorem shown_foldl (dayLabel : Number → Label) (s : Folding Label) (messages : List Message) :
    (messages.foldl (step dayLabel) s).shown = s.shown ++ messages := by
  induction messages generalizing s with
  | nil => exact (List.append_nil _).symm
  | cons m messages ih =>
    rw [List.foldl_cons, ih, shown_step, List.append_assoc, List.singleton_append]

theorem OneDay.step (h : OneDay dayLabel s) (m : Message) :
    OneDay dayLabel (step dayLabel s m) := by
  refine OneDay.add ?_ (day_turn s _ m)
  unfold turn
  split
  · exact h
  · exact h.push (by simp) _

theorem oneDay_foldl (messages : List Message) :
    OneDay dayLabel (messages.foldl (Folding.step dayLabel) ⟨[], none, none⟩) :=
  messages.foldlRecOn _ ⟨by simp, by simp⟩ fun _ h m _ => h.step m

theorem Together.step (h : Together s.out pre a b) (m : Message) :
    Together (Folding.step dayLabel s m).out pre a b := by
  refine Together.add ?_ m
  unfold turn
  split
  · exact h
  · simpa [Folding.push, Folding.out] using h.append _

theorem Together.foldl (h : Together s.out pre a b) (messages : List Message) :
    Together (messages.foldl (Folding.step dayLabel) s).out pre a b := by
  induction messages generalizing s with
  | nil => exact h
  | cons m messages ih => exact ih (h.step m)

/-- Two lines that may share a header do. -/
theorem together_step (s : Folding Label) (ha : a.system = false)
    (hb : b.system = false) (hsender : a.sender = b.sender) (hstanding : a.standing = b.standing)
    (hday : dayLabel a.ts = dayLabel b.ts) (hsoon : b.soonAfter a = true) :
    Together (Folding.step dayLabel (Folding.step dayLabel s a) b).out s.shown a b := by
  obtain ⟨g, l, hgroup, hlines, hdone⟩ := exists_group_add (s.turn (dayLabel a.ts) a) ha
  rw [shown_turn] at hdone
  set s₁ := (s.turn (dayLabel a.ts) a).add a with hs₁
  have hturn : s₁.turn (dayLabel b.ts) b = s₁ := by
    rw [turn, if_pos]
    rw [hs₁, day_add, day_turn, hday]
  have hlast : g.last = a.ts := by
    have hending := g.ending
    rw [hlines, List.getLast?_concat] at hending
    exact (Option.some.inj hending).symm
  obtain ⟨hsender', hstanding', -⟩ := g.sole a (by simp [hlines])
  have hadmits : g.Admits b :=
    ⟨hsender'.symm.trans hsender, hstanding'.symm.trans hstanding, by rw [hlast]; exact hsoon⟩
  have hb' : ¬ b.system = true := by rw [hb]; exact Bool.false_ne_true
  have hout : (s₁.add b).out = s₁.done ++ [.group (g.join b hb hadmits)] := by
    unfold Folding.add
    rw [dif_neg hb', hgroup]
    dsimp only
    rw [dif_pos hadmits]
    rfl
  rw [step, step, ← hs₁, hturn, hout]
  exact ⟨s₁.done, g.join b hb hadmits, [], l, [], rfl, by simp [Group.join, hlines], hdone⟩

end Folding

/-- A header vouches for its own lines, and for all of them. -/
theorem fold_vouches {Label : Type} [DecidableEq Label] (dayLabel : Number → Label)
    (messages : List Message) :
    (fold dayLabel messages).flatMap Row.lines = messages ∧
    (∀ g, Row.group g ∈ fold dayLabel messages →
      (∀ m ∈ g.lines, m.sender = g.sender ∧ m.standing = g.auth ∧ m.system = false) ∧
      (∃ label, ∀ m ∈ g.lines, dayLabel m.ts = label) ∧
      g.lines.IsChain fun prior m => m.soonAfter prior = true) ∧
    ∀ pre a b post, messages = pre ++ a :: b :: post → a.system = false → b.system = false →
      a.sender = b.sender → a.standing = b.standing → dayLabel a.ts = dayLabel b.ts →
      b.soonAfter a = true → Folding.Together (fold dayLabel messages) pre a b := by
  refine ⟨Folding.shown_foldl dayLabel ⟨[], none, none⟩ messages, fun g hg => ?_, ?_⟩
  · exact ⟨g.sole, (Folding.oneDay_foldl messages).out hg, g.close⟩
  · rintro pre a b post rfl ha hb hsender hstanding hday hsoon
    unfold fold
    rw [List.foldl_append, List.foldl_cons, List.foldl_cons]
    have hpre := Folding.shown_foldl dayLabel ⟨[], none, none⟩ pre
    refine Folding.Together.foldl ?_ post
    have htogether := Folding.together_step (pre.foldl (Folding.step dayLabel) ⟨[], none, none⟩)
      ha hb hsender hstanding hday hsoon
    rwa [hpre] at htogether

end Quorum
