import Quorum.Blobs

/-!
# Uploads and readers at the same time

`put` looks whether the file is there and then writes it, and between the two, other calls go on.
`tokio::fs::write` creates the file or empties it, and then writes from the front on, a piece at a
time; `tokio::fs::read` reads piece by piece as well, up to the end that the file has by then.

Two uploads under one id may thus both find nothing and both succeed (`both_uploads_succeed`).  An
upload that no other one runs into, that does not break off and that no reader opens halfway is
written once: what it stored is what the file holds and what every reader gets
(`written_once_of_orderly`).
-/

namespace Quorum.Blobs

open Js Store

/-! ### Calls that are under way -/

/-- How far a `put` has come. -/
inductive Phase
  /-- It has not looked for the file. -/
  | arrived
  /-- It found no file. -/
  | checked
  /-- It has created the file and written so many bytes. -/
  | writing (done : ℕ)
  deriving DecidableEq

/-- A `put` has found no file, and has not returned. -/
def Phase.busy : Phase → Bool
  | arrived => false
  | checked => true
  | writing _ => true

/-- A call of `put(id, data)`. -/
structure Put where
  id : String
  data : Bytes
  phase : Phase
  deriving DecidableEq

/-- A call of `get(id)` that has opened the file, with what it has read. -/
structure Get where
  id : String
  seen : Bytes
  deriving DecidableEq

/-- The files and the calls under way, by a number; beside them the puts that returned `Ok` and the
gets that returned data. -/
structure Running where
  files : Dict String Bytes
  puts : ℕ → Option Put
  gets : ℕ → Option Get
  stored : List (String × Bytes)
  returned : List (String × Bytes)

/-- What the calls do, one step at a time. -/
inductive Event
  /-- A call of `put(id, data)` arrives. -/
  | put (n : ℕ) (id : String) (data : Bytes)
  /-- It makes its checks; `try_exists` may fail. -/
  | check (n : ℕ) (failed : Bool)
  /-- It creates the file, or empties it. -/
  | create (n : ℕ)
  /-- It writes so many bytes, or those that are left. -/
  | write (n count : ℕ)
  /-- It has written everything, and returns. -/
  | finish (n : ℕ)
  /-- The disk refuses, and it returns an error. -/
  | fail (n : ℕ)
  /-- A call of `get(id)` opens the file. -/
  | get (n : ℕ) (id : String)
  /-- It reads so many bytes, or those that are left. -/
  | read (n count : ℕ)
  /-- It is at the end of the file, and returns. -/
  | close (n : ℕ)
  /-- It cannot read on, and returns an error. -/
  | failGet (n : ℕ)

/-- A piece is written at a place of a file; what lies between its end and the place is zero. -/
def writeAt (content : Bytes) (place : ℕ) (piece : Bytes) : Bytes :=
  (content ++ List.replicate (place - content.length) 0).take place ++ piece ++
    content.drop (place + piece.length)

namespace Running

def start (files : Dict String Bytes) : Running := ⟨files, fun _ => none, fun _ => none, [], []⟩

def setPut (s : Running) (n : ℕ) (p : Option Put) : Running :=
  { s with puts := Function.update s.puts n p }

def setGet (s : Running) (n : ℕ) (g : Option Get) : Running :=
  { s with gets := Function.update s.gets n g }

/-- What a file holds, if it is there. -/
def content (s : Running) (id : String) : Bytes := (s.files.get? id).getD []

def check (s : Running) (n : ℕ) (failed : Bool) : Running :=
  match s.puts n with
  | some ⟨id, data, .arrived⟩ =>
    -- `try_exists(&path).await.unwrap_or(false)`
    match checkPut id data (!failed && s.files.has id) with
    | .error _ => s.setPut n none
    | .ok () => s.setPut n (some ⟨id, data, .checked⟩)
  | _ => s

def create (s : Running) (n : ℕ) : Running :=
  match s.puts n with
  | some ⟨id, data, .checked⟩ =>
    { s.setPut n (some ⟨id, data, .writing 0⟩) with files := s.files.set id [] }
  | _ => s

def write (s : Running) (n count : ℕ) : Running :=
  match s.puts n with
  | some ⟨id, data, .writing done⟩ =>
    let piece := (data.drop done).take count
    { s.setPut n (some ⟨id, data, .writing (done + piece.length)⟩) with
      files := s.files.set id (writeAt (s.content id) done piece) }
  | _ => s

def finish (s : Running) (n : ℕ) : Running :=
  match s.puts n with
  | some ⟨id, data, .writing done⟩ =>
    if data.length ≤ done then { s.setPut n none with stored := (id, data) :: s.stored } else s
  | _ => s

def fail (s : Running) (n : ℕ) : Running :=
  match s.puts n with
  | some ⟨_, _, .arrived⟩ => s
  | _ => s.setPut n none

def openFile (s : Running) (n : ℕ) (id : String) : Running :=
  match s.gets n, Blobs.get s.files id with
  | none, .ok (some _) => s.setGet n (some ⟨id, []⟩)
  | _, _ => s

def read (s : Running) (n count : ℕ) : Running :=
  match s.gets n with
  | some ⟨id, seen⟩ =>
    s.setGet n (some ⟨id, seen ++ ((s.content id).drop seen.length).take count⟩)
  | none => s

def close (s : Running) (n : ℕ) : Running :=
  match s.gets n with
  | some ⟨id, seen⟩ =>
    if (s.content id).length ≤ seen.length then
      { s.setGet n none with returned := (id, seen) :: s.returned }
    else s
  | none => s

def step (s : Running) : Event → Running
  | .put n id data => if (s.puts n).isNone then s.setPut n (some ⟨id, data, .arrived⟩) else s
  | .check n failed => s.check n failed
  | .create n => s.create n
  | .write n count => s.write n count
  | .finish n => s.finish n
  | .fail n => s.fail n
  | .get n id => s.openFile n id
  | .read n count => s.read n count
  | .close n => s.close n
  | .failGet n => s.setGet n none

end Running

/-! ### What is asked of a run -/

/-- The put of this number has found no file, and has not returned. -/
def Busy (puts : ℕ → Option Put) (n : ℕ) (p : Put) : Prop :=
  puts n = some p ∧ p.phase.busy = true

/-- **A step that no other call gets in the way of.** -/
def Orderly (s : Running) : Event → Prop
  -- No other put of the id is under way, and if the look fails then nothing is there.
  | .check n failed => ∀ p, s.puts n = some p → p.phase = .arrived →
      (∀ m q, Busy s.puts m q → q.id ≠ p.id) ∧ (failed = true → s.files.get? p.id = none)
  -- No write breaks off.
  | .fail n => ∀ p done, s.puts n = some p → p.phase ≠ .writing done
  -- No put of the id is halfway.
  | .get _ id => ∀ m q done, s.puts m = some q → q.phase = .writing done → q.id ≠ id
  | _ => True

/-- What was stored under an id: the file that was there, and the puts that returned `Ok`. -/
def written (before : Dict String Bytes) (stored : List (String × Bytes)) (id : String) :
    List Bytes :=
  (before.get? id).toList ++ (stored.filter fun p => p.1 == id).map Prod.snd

/-- What the file of a put is, as far as it has come. -/
def Put.onDisk (p : Put) : Option Bytes :=
  match p.phase with
  | .writing done => some (p.data.take done)
  | _ => none

/-- It has written no more than it has. -/
def Put.Fits (p : Put) : Prop := ∀ done, p.phase = .writing done → done ≤ p.data.length

structure Kept (before : Dict String Bytes) (s : Running) : Prop where
  alone : ∀ n m p q, Busy s.puts n p → Busy s.puts m q → p.id = q.id → n = m
  busy : ∀ n p, Busy s.puts n p → written before s.stored p.id = [] ∧ s.files.get? p.id = p.onDisk
  fits : ∀ n p, Busy s.puts n p → p.Fits
  idle : ∀ id, (∀ n p, Busy s.puts n p → p.id ≠ id) →
    written before s.stored id = (s.files.get? id).toList
  reading : ∀ n g, s.gets n = some g → ∃ data, written before s.stored g.id = [data] ∧ g.seen <+: data
  returned : ∀ r ∈ s.returned, written before s.stored r.1 = [r.2]

variable {before : Dict String Bytes} {s s' : Running} {n : ℕ} {id : String} {data : Bytes}

/-- Where something was stored, no put is under way, and the file holds it. -/
theorem Kept.get?_eq (h : Kept before s) (hw : written before s.stored id = [data]) :
    (∀ n p, Busy s.puts n p → p.id ≠ id) ∧ s.files.get? id = some data := by
  have hno : ∀ n p, Busy s.puts n p → p.id ≠ id := by
    rintro n p hbusy rfl
    exact List.cons_ne_nil _ _ (hw.symm.trans (h.busy n p hbusy).1)
  refine ⟨hno, ?_⟩
  have hidle := h.idle id hno
  rw [hw] at hidle
  exact Option.toList_eq_singleton_iff.mp hidle.symm

theorem busy_update {puts : ℕ → Option Put} {m : ℕ} {o : Option Put} {q : Put} :
    Busy (Function.update puts n o) m q ↔
      (m = n ∧ o = some q ∧ q.phase.busy = true) ∨ (m ≠ n ∧ Busy puts m q) := by
  unfold Busy
  by_cases hm : m = n
  · subst hm
    simp
  · simp [hm]

/-- A step of a put that is not busy after it, and was not before. -/
theorem busy_update_iff {puts : ℕ → Option Put} {m : ℕ} {o : Option Put} {q : Put}
    (hbefore : ∀ p, ¬Busy puts n p) (hafter : ∀ p, o = some p → p.phase.busy = false) :
    Busy (Function.update puts n o) m q ↔ Busy puts m q := by
  rw [busy_update]
  constructor
  · rintro (⟨-, rfl, hq⟩ | ⟨-, hq⟩)
    · exact absurd (hafter q rfl) (by rw [hq]; decide)
    · exact hq
  · intro hq
    refine .inr ⟨?_, hq⟩
    rintro rfl
    exact hbefore q hq

/-! ### One step -/

/-- Nothing changes but calls that are not busy. -/
theorem Kept.of_same (h : Kept before s) (hputs : ∀ m q, Busy s'.puts m q ↔ Busy s.puts m q)
    (hfiles : s'.files = s.files) (hstored : s'.stored = s.stored) (hgets : s'.gets = s.gets)
    (hreturned : s'.returned = s.returned) : Kept before s' := by
  obtain ⟨files, puts, gets, stored, returned⟩ := s'
  subst hfiles hstored hgets hreturned
  exact
    { alone := fun n m p q hp hq => h.alone n m p q ((hputs n p).mp hp) ((hputs m q).mp hq)
      busy := fun n p hp => h.busy n p ((hputs n p).mp hp)
      fits := fun n p hp => h.fits n p ((hputs n p).mp hp)
      idle := fun id hid => h.idle id fun n p hp => hid n p ((hputs n p).mpr hp)
      reading := h.reading
      returned := h.returned }

/-- A put that found no file, as the only one of its id. -/
theorem Kept.claim {p : Put} (h : Kept before s) (hfree : ∀ q, ¬Busy s.puts n q)
    (hno : ∀ m q, Busy s.puts m q → q.id ≠ p.id) (habsent : s.files.get? p.id = none)
    (hphase : p.phase = .checked) : Kept before (s.setPut n (some p)) := by
  have hwritten : written before s.stored p.id = [] := by
    rw [h.idle p.id hno, habsent]
    rfl
  refine ⟨?_, ?_, ?_, ?_, h.reading, h.returned⟩
  · intro m m' q q' hq hq' hid
    rcases busy_update.mp hq with ⟨rfl, ⟨⟩, -⟩ | ⟨-, hold⟩ <;>
      rcases busy_update.mp hq' with ⟨rfl, ⟨⟩, -⟩ | ⟨-, hold'⟩
    · rfl
    · exact absurd hid.symm (hno _ _ hold')
    · exact absurd hid (hno _ _ hold)
    · exact h.alone _ _ _ _ hold hold' hid
  · intro m q hq
    rcases busy_update.mp hq with ⟨-, ⟨⟩, -⟩ | ⟨-, hold⟩
    · refine ⟨hwritten, habsent.trans ?_⟩
      rw [Put.onDisk, hphase]
    · exact h.busy m q hold
  · intro m q hq
    rcases busy_update.mp hq with ⟨-, ⟨⟩, -⟩ | ⟨-, hold⟩
    · exact fun done hdone => absurd (hphase.symm.trans hdone) Phase.noConfusion
    · exact h.fits m q hold
  · intro id hid
    refine h.idle id fun m q hq => hid m q (busy_update.mpr (.inr ⟨?_, hq⟩))
    rintro rfl
    exact hfree q hq

/-- A busy put goes on, and the file with it. -/
theorem Kept.advance {p q : Put} {c : Bytes} (h : Kept before s) (hp : Busy s.puts n p)
    (hid : q.id = p.id) (hq : q.phase.busy = true) (hc : q.onDisk = some c)
    (hfits : q.Fits) :
    Kept before { s.setPut n (some q) with files := s.files.set p.id c } := by
  have hkeeps : ∀ m r, Busy (Function.update s.puts n (some q)) m r →
      ∃ r', Busy s.puts m r' ∧ r'.id = r.id := by
    intro m r hr
    rcases busy_update.mp hr with ⟨rfl, ⟨⟩, -⟩ | ⟨-, hold⟩
    · exact ⟨p, hp, hid.symm⟩
    · exact ⟨r, hold, rfl⟩
  refine ⟨?_, ?_, ?_, ?_, h.reading, h.returned⟩
  · intro m m' r r' hr hr' hsame
    obtain ⟨o, ho, hro⟩ := hkeeps m r hr
    obtain ⟨o', ho', hro'⟩ := hkeeps m' r' hr'
    exact h.alone m m' o o' ho ho' (hro.trans (hsame.trans hro'.symm))
  · intro m r hr
    rcases busy_update.mp hr with ⟨-, ⟨⟩, -⟩ | ⟨hm, hold⟩
    · refine ⟨hid ▸ (h.busy n p hp).1, ?_⟩
      rw [hc, hid]
      exact Dict.get?_set_self ..
    · have hne : p.id ≠ r.id := fun hpr => hm (h.alone m n r p hold hp hpr.symm)
      refine ⟨(h.busy m r hold).1, ?_⟩
      exact (Dict.get?_set_of_ne _ _ hne).trans (h.busy m r hold).2
  · intro m r hr
    rcases busy_update.mp hr with ⟨-, ⟨⟩, -⟩ | ⟨-, hold⟩
    · exact hfits
    · exact h.fits m r hold
  · intro id hno
    have hne : p.id ≠ id := hid ▸ hno n q (busy_update.mpr (.inl ⟨rfl, rfl, hq⟩))
    refine (h.idle id fun m r hr => ?_).trans ?_
    · by_cases hm : m = n
      · subst hm
        obtain rfl := Option.some.inj (hp.1.symm.trans hr.1)
        exact hne
      · exact hno m r (busy_update.mpr (.inr ⟨hm, hr⟩))
    · exact congrArg _ (Dict.get?_set_of_ne _ _ hne).symm

/-- A busy put is over, and of its id there is what it leaves in the file. -/
theorem Kept.leave {p : Put} {stored : List (String × Bytes)} (h : Kept before s)
    (hp : Busy s.puts n p) (hself : written before stored p.id = p.onDisk.toList)
    (hother : ∀ id, p.id ≠ id → written before stored id = written before s.stored id) :
    Kept before { s.setPut n none with stored := stored } := by
  have hkeeps : ∀ {m r}, Busy (Function.update s.puts n none) m r →
      Busy s.puts m r ∧ p.id ≠ r.id := by
    intro m r hr
    rcases busy_update.mp hr with ⟨-, ⟨⟩, -⟩ | ⟨hm, hold⟩
    exact ⟨hold, fun hpr => hm (h.alone m n r p hold hp hpr.symm)⟩
  have hwritten : ∀ {id data}, written before s.stored id = [data] → p.id ≠ id :=
    fun hw hid => (h.get?_eq hw).1 n p hp hid
  refine ⟨?_, ?_, fun m r hr => h.fits m r (hkeeps hr).1, ?_, ?_, ?_⟩
  · exact fun m m' r r' hr hr' => h.alone m m' r r' (hkeeps hr).1 (hkeeps hr').1
  · intro m r hr
    obtain ⟨hold, hne⟩ := hkeeps hr
    exact ⟨(hother _ hne).trans (h.busy m r hold).1, (h.busy m r hold).2⟩
  · intro id hno
    by_cases hid : p.id = id
    · subst hid
      exact hself.trans (congrArg _ (h.busy n p hp).2.symm)
    · refine (hother id hid).trans (h.idle id fun m r hr => ?_)
      by_cases hm : m = n
      · subst hm
        obtain rfl := Option.some.inj (hp.1.symm.trans hr.1)
        exact hid
      · exact hno m r (busy_update.mpr (.inr ⟨hm, hr⟩))
  · intro m g hg
    obtain ⟨data, hw, hseen⟩ := h.reading m g hg
    exact ⟨data, (hother _ (hwritten hw)).trans hw, hseen⟩
  · intro r hr
    have hw := h.returned r hr
    exact (hother _ (hwritten hw)).trans hw

/-! ### Each event -/

theorem Kept.put (h : Kept before s) : Kept before (s.step (.put n id data)) := by
  unfold Running.step
  dsimp only
  split
  case isFalse => exact h
  case isTrue hnone =>
    refine h.of_same (fun m q => busy_update_iff ?_ ?_) rfl rfl rfl rfl
    · rintro p ⟨hp, -⟩
      rw [hp] at hnone
      exact Bool.false_ne_true hnone
    · rintro p ⟨⟩
      rfl

theorem absent_of_checkPut {present : Bool} (h : checkPut id data present = .ok ()) :
    present = false := by
  cases present with
  | false => rfl
  | true =>
    unfold checkPut at h
    split_ifs at h
    simp at *

theorem Kept.check {failed : Bool} (h : Kept before s) (ho : Orderly s (.check n failed)) :
    Kept before (s.check n failed) := by
  unfold Running.check
  split
  case h_2 => exact h
  case h_1 id data hput =>
    obtain ⟨hno, hfailed⟩ := ho _ hput rfl
    have hfree : ∀ p, ¬Busy s.puts n p := by
      rintro p ⟨hp, hbusy⟩
      obtain rfl := Option.some.inj (hput.symm.trans hp)
      exact Bool.false_ne_true hbusy
    split
    case h_1 =>
      exact h.of_same (fun m q => busy_update_iff hfree fun p hp => absurd hp (by simp))
        rfl rfl rfl rfl
    case h_2 hcheck =>
      have habsent : s.files.get? id = none := by
        cases failed with
        | true => exact hfailed rfl
        | false => exact (Dict.get?_eq_none_iff _ _).mpr (absent_of_checkPut hcheck)
      exact h.claim hfree hno habsent rfl

theorem Kept.create (h : Kept before s) : Kept before (s.create n) := by
  unfold Running.create
  split
  case h_2 => exact h
  case h_1 id data hput =>
    refine h.advance ⟨hput, rfl⟩ rfl rfl rfl ?_
    rintro done ⟨⟩
    exact Nat.zero_le _

theorem writeAt_take {done count : ℕ} (hdone : done ≤ data.length) :
    writeAt (data.take done) done ((data.drop done).take count) =
      data.take (done + ((data.drop done).take count).length) := by
  have hlength : (data.take done).length = done := List.length_take_of_le hdone
  have hpast : ∀ k, (data.take done).drop (done + k) = [] := fun k =>
    List.drop_of_length_le (hlength.trans_le (Nat.le_add_right done k))
  unfold writeAt
  rw [hpast, hlength, Nat.sub_self, List.replicate_zero, List.append_nil, List.append_nil,
    List.take_take, min_self, List.take_add, List.length_take, ← List.take_take,
    List.take_length]

theorem Kept.write {count : ℕ} (h : Kept before s) : Kept before (s.write n count) := by
  unfold Running.write
  split
  case h_2 => exact h
  case h_1 id data done hput =>
    have hbusy : Busy s.puts n ⟨id, data, .writing done⟩ := ⟨hput, rfl⟩
    have hdone : done ≤ data.length := h.fits n _ hbusy done rfl
    have hcontent : s.content id = data.take done := by
      unfold Running.content
      rw [(h.busy n _ hbusy).2]
      rfl
    refine h.advance hbusy rfl rfl ?_ ?_
    · rw [hcontent, writeAt_take hdone]
      rfl
    · rintro _ ⟨⟩
      rw [List.length_take, List.length_drop]
      dsimp only
      omega

theorem Kept.finish (h : Kept before s) : Kept before (s.finish n) := by
  unfold Running.finish
  split
  case h_2 => exact h
  case h_1 id data done hput =>
    split
    case isFalse => exact h
    case isTrue hall =>
      have hbusy : Busy s.puts n ⟨id, data, .writing done⟩ := ⟨hput, rfl⟩
      have hnone := (h.busy n _ hbusy).1
      obtain ⟨hbefore, hstored⟩ := List.append_eq_nil_iff.mp hnone
      refine h.leave hbusy ?_ fun id' hid => ?_
      · have hself : written before ((id, data) :: s.stored) id = [data] := by
          unfold written
          rw [hbefore, List.filter_cons_of_pos (by exact beq_self_eq_true id), List.map_cons, hstored]
          rfl
        rw [hself]
        exact congrArg (fun d => [d]) (List.take_of_length_le hall).symm
      · unfold written
        rw [List.filter_cons_of_neg (by simpa using hid)]

theorem Kept.fail (h : Kept before s) (ho : Orderly s (.fail n)) : Kept before (s.fail n) := by
  unfold Running.fail
  split
  case h_1 => exact h
  case h_2 harrived =>
    cases hput : s.puts n with
    | none =>
      refine h.of_same (fun m q => busy_update_iff ?_ ?_) rfl rfl rfl rfl
      · rintro p ⟨hp, -⟩
        rw [hput] at hp
        cases hp
      · rintro p ⟨⟩
    | some p =>
      obtain ⟨id, data, phase⟩ := p
      cases phase with
      | arrived => exact absurd hput (harrived id data)
      | checked =>
        have hbusy : Busy s.puts n ⟨id, data, .checked⟩ := ⟨hput, rfl⟩
        exact h.leave hbusy (h.busy n _ hbusy).1 fun _ _ => rfl
      | writing done => exact absurd rfl (ho _ done hput)

/-- A get that is not one of those under way. -/
theorem Kept.setGet (h : Kept before s) {o : Option Get}
    (ho : ∀ g, o = some g → ∃ data, written before s.stored g.id = [data] ∧ g.seen <+: data) :
    Kept before (s.setGet n o) := by
  refine ⟨h.alone, h.busy, h.fits, h.idle, ?_, h.returned⟩
  intro m g hg
  by_cases hm : m = n
  · subst hm
    exact ho g (by simpa [Running.setGet] using hg)
  · exact h.reading m g (by simpa [Running.setGet, hm] using hg)

theorem Kept.openFile (h : Kept before s) (ho : Orderly s (.get n id)) :
    Kept before (s.openFile n id) := by
  unfold Running.openFile
  split
  case h_2 => exact h
  case h_1 content _ hget =>
    have hfile : s.files.get? id = some content := by
      unfold Blobs.get at hget
      split at hget
      · exact Except.ok.inj hget
      · cases hget
    -- A put that is busy with the id has not created the file, and a file is there.
    have hno : ∀ m q, Busy s.puts m q → q.id ≠ id := by
      rintro m ⟨_, data, phase⟩ hbusy rfl
      cases phase with
      | arrived => exact Bool.false_ne_true hbusy.2
      | checked => exact Option.some_ne_none _ (hfile.symm.trans (h.busy m _ hbusy).2)
      | writing done => exact ho m _ done hbusy.1 rfl rfl
    refine h.setGet ?_
    rintro _ ⟨⟩
    refine ⟨content, ?_, List.nil_prefix⟩
    rw [h.idle id hno, hfile]
    rfl

theorem Kept.content {g : Get} (h : Kept before s) (hg : s.gets n = some g) :
    written before s.stored g.id = [s.content g.id] ∧ g.seen <+: s.content g.id := by
  obtain ⟨data, hw, hseen⟩ := h.reading n g hg
  have hdata : s.content g.id = data := by
    unfold Running.content
    rw [(h.get?_eq hw).2]
    rfl
  rw [hdata]
  exact ⟨hw, hseen⟩

theorem Kept.read {count : ℕ} (h : Kept before s) : Kept before (s.read n count) := by
  unfold Running.read
  split
  case h_2 => exact h
  case h_1 id seen hget =>
    obtain ⟨hw, t, ht⟩ := h.content hget
    refine h.setGet ?_
    rintro _ ⟨⟩
    refine ⟨_, hw, ?_⟩
    rw [← ht, List.drop_left, List.prefix_append_right_inj]
    exact List.take_prefix ..

theorem Kept.close (h : Kept before s) : Kept before (s.close n) := by
  unfold Running.close
  split
  case h_2 => exact h
  case h_1 id seen hget =>
    split
    case isFalse => exact h
    case isTrue hend =>
      obtain ⟨hw, hseen⟩ := h.content hget
      have hkept : Kept before (s.setGet n none) := h.setGet fun g hg => by cases hg
      refine ⟨hkept.alone, hkept.busy, hkept.fits, hkept.idle, hkept.reading, fun r hr => ?_⟩
      rcases List.mem_cons.mp hr with rfl | hr
      · exact hw.trans (congrArg (fun d => [d]) (hseen.eq_of_length_le hend).symm)
      · exact h.returned r hr

theorem Kept.step {e : Event} (h : Kept before s) (ho : Orderly s e) :
    Kept before (s.step e) := by
  cases e with
  | put n id data => exact h.put
  | check n failed => exact h.check ho
  | create n => exact h.create
  | write n count => exact h.write
  | finish n => exact h.finish
  | fail n => exact h.fail ho
  | get n id => exact h.openFile ho
  | read n count => exact h.read
  | close n => exact h.close
  | failGet n => exact h.setGet fun g hg => by cases hg

/-! ### Whole runs -/

theorem kept_start (files : Dict String Bytes) : Kept files (.start files) := by
  refine ⟨?_, ?_, ?_, fun id _ => List.append_nil _, ?_, ?_⟩
  · rintro n m p q ⟨⟨⟩, -⟩
  · rintro n p ⟨⟨⟩, -⟩
  · rintro n p ⟨⟨⟩, -⟩
  · rintro n g ⟨⟩
  · exact fun r hr => absurd hr List.not_mem_nil

/-- What was stored under an id is one value at most, which the file holds and every reader gets. -/
structure WrittenOnce (before : Dict String Bytes) (s : Running) : Prop where
  once : ∀ id, (written before s.stored id).length ≤ 1
  held : ∀ id, ∀ data ∈ written before s.stored id, s.files.get? id = some data
  got : ∀ r ∈ s.returned, r.2 ∈ written before s.stored r.1

theorem Kept.writtenOnce (h : Kept before s) : WrittenOnce before s := by
  have hshort : ∀ id, (written before s.stored id).length ≤ 1 := by
    intro id
    by_cases hno : ∀ n p, Busy s.puts n p → p.id ≠ id
    · rw [h.idle id hno]
      cases s.files.get? id <;> simp
    · push Not at hno
      obtain ⟨n, p, hbusy, rfl⟩ := hno
      rw [(h.busy n p hbusy).1]
      exact Nat.zero_le _
  refine ⟨hshort, fun id data hdata => ?_, fun r hr => ?_⟩
  · have hw : written before s.stored id = [data] := by
      obtain ⟨d, hd⟩ := List.length_eq_one_iff.mp
        (le_antisymm (hshort id) (List.length_pos_of_mem hdata))
      rw [hd] at hdata ⊢
      rw [List.mem_singleton.mp hdata]
    exact (h.get?_eq hw).2
  · rw [h.returned r hr]
    exact List.mem_singleton_self _

/-- **In a run whose steps no other call gets in the way of, every id is written once.** -/
theorem written_once_of_orderly (files : Dict String Bytes) (events : List Event)
    (h : Along Running.step Orderly (.start files) events) :
    WrittenOnce files (events.foldl Running.step (.start files)) :=
  (Along.preserves (P := Kept files) (fun _ _ hs ho => hs.step ho) h
    (kept_start files)).writtenOnce

/-- An upload, a second one that is refused, and a reader. -/
def upload : List Event :=
  [.put 0 "a" [1, 2], .check 0 false, .create 0, .write 0 1, .write 0 1, .finish 0,
    .put 1 "a" [3], .check 1 false, .get 0 "a", .read 0 5, .close 0]

theorem orderly_check_of_calm (h : ∀ m q, ¬Busy s.puts m q) : Orderly s (.check n false) :=
  fun _ _ _ => ⟨fun m q hq => absurd hq (h m q), fun hfailed => absurd hfailed (by decide)⟩

theorem orderly_get_of_calm (h : ∀ m q, ¬Busy s.puts m q) : Orderly s (.get n id) :=
  fun m q _ hq hphase => absurd ⟨hq, by rw [hphase]; rfl⟩ (h m q)

theorem upload_orderly : Along Running.step Orderly (.start .empty) upload := by
  refine ⟨trivial, orderly_check_of_calm ?_, trivial, trivial, trivial, trivial, trivial,
    orderly_check_of_calm ?_, orderly_get_of_calm ?_, trivial, trivial, trivial⟩
  · rintro (_ | m) q ⟨hq, hbusy⟩
    · cases hq
      cases hbusy
    · cases hq
  · rintro (_ | _ | m) q ⟨hq, hbusy⟩
    · cases hq
    · cases hq
      cases hbusy
    · cases hq
  · rintro (_ | _ | m) q ⟨hq, hbusy⟩
    · cases hq
    · cases hq
    · cases hq

theorem written_once_upload : Along Running.step Orderly (.start .empty) upload ∧
    WrittenOnce .empty (upload.foldl Running.step (.start .empty)) :=
  ⟨upload_orderly, written_once_of_orderly .empty upload upload_orderly⟩

/-- Two uploads under one id that both find nothing, and a reader after each. -/
def race : List Event :=
  [.put 0 "a" [1], .put 1 "a" [2], .check 0 false, .check 1 false,
    .create 0, .write 0 1, .finish 0, .get 0 "a", .read 0 1, .close 0,
    .create 1, .write 1 1, .finish 1, .get 0 "a", .read 0 1, .close 0]

/-- Both uploads of `race` succeed, and the readers get different bytes. -/
theorem both_uploads_succeed :
    (race.foldl Running.step (.start .empty)).stored = [("a", [2]), ("a", [1])] ∧
      (race.foldl Running.step (.start .empty)).returned = [("a", [2]), ("a", [1])] ∧
      ¬WrittenOnce .empty (race.foldl Running.step (.start .empty)) := by
  have hstored : (race.foldl Running.step (.start .empty)).stored = [("a", [2]), ("a", [1])] := by
    decide +kernel
  refine ⟨hstored, by decide +kernel, fun h => ?_⟩
  have honce := h.once "a"
  rw [hstored] at honce
  exact absurd honce (by decide +kernel)

end Quorum.Blobs
