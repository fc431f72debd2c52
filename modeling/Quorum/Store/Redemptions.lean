import Quorum.Order.Along
import Quorum.Store.Postgres

/-!
# Redeeming an invite from many connections at once

In Postgres `redeem_invite` is a transaction: it looks for a claim of the user, counts a use of the
invite if there is none, inserts the claim and commits.  Other transactions may issue their
statements in between.  A statement sees what is committed and what its own transaction wrote; an
`UPDATE` of a row that another transaction has updated waits until that one is over, and then reads
the row again.  That is the isolation level `READ COMMITTED`.

The three statements do not exclude one another for one user: two redemptions of a user that run at
once may both find no claim, and both count a use.  If no user begins a redemption while another of
theirs is under way, the uses grow by the number of users with a new claim, and nobody with a claim
is refused for want of uses (`uses_grow_by_claims`).
-/

namespace Quorum.Store.PgStore

open Js (Dict)

/-! ### Transactions -/

/-- Where a transaction of `redeem_invite` stands. -/
inductive Stage
  | begun
  /-- It has looked for a claim of the user. -/
  | looked (claimed : Bool)
  /-- It has found the invite, and counted a use or not. -/
  | found (counted : Bool) (row : String × Bytes)
  /-- It has inserted the claim. -/
  | inserted (counted : Bool) (row : String × Bytes)
  | committed (row : String × Bytes)
  /-- It was rolled back with `InviteInvalid`; was it for want of uses? -/
  | refused (full : Bool)
  /-- It was rolled back since a statement failed. -/
  | failed
deriving DecidableEq

namespace Stage

/-- The transaction is committed or rolled back. -/
def ended : Stage → Bool
  | .committed _ => true
  | .refused _ => true
  | .failed => true
  | _ => false

/-- It has updated the row of the invite. -/
def locks : Stage → Bool
  | .found counted _ => counted
  | .inserted counted _ => counted
  | _ => false

end Stage

/-- A transaction of `redeem_invite` for an invite. -/
structure Redemption where
  user : String
  now : ℕ
  stage : Stage
deriving DecidableEq

/-- The database as committed, and the transactions on one invite. -/
structure Redemptions where
  db : Db
  all : List Redemption

variable (invite : String)

/-- The database as a transaction sees it, with what it has written itself. -/
def Redemption.view (r : Redemption) (db : Db) : Db :=
  match r.stage with
  | .found true _ => (countUse invite (asI64 r.now)).after db
  | .inserted true _ =>
    (insertClaim invite r.user).after ((countUse invite (asI64 r.now)).after db)
  | .inserted false _ => (insertClaim invite r.user).after db
  | _ => db

/-- The `UPDATE` of a use finds a row. -/
def countable (db : Db) (now : ℤ) : Bool :=
  (db.invites.get? invite).any fun row => unexpired row now && hasRoom row

/-- The invite is there and has not expired, and has no use left. -/
def isFull (db : Db) (now : ℤ) : Bool :=
  (db.invites.get? invite).any fun row => unexpired row now && !hasRoom row

/-- The next statement waits for another transaction: for one that has updated the row, or for one
that has inserted the same claim. -/
def Redemptions.waits (s : Redemptions) (i : ℕ) (r : Redemption) : Bool :=
  let others (p : Redemption → Bool) :=
    s.all.zipIdx.any fun q => q.2 != i && !q.1.stage.ended && p q.1
  match r.stage with
  | .looked false => countable invite s.db (asI64 r.now) && others (·.stage.locks)
  | .found .. =>
    !s.db.inviteClaims.has (invite, r.user) && others fun q =>
      q.user == r.user && (q.view invite s.db).inviteClaims.has (invite, r.user)
  | _ => false

/-- Where a transaction stands after its next statement. -/
def Redemption.next (r : Redemption) (db : Db) : Stage :=
  match r.stage with
  | .begun =>
    match lookup [invite, r.user] Db.inviteClaims (invite, r.user) (r.view invite db) with
    | .ok (claim, _) => .looked claim.isSome
    | .error _ => .failed
  | .looked claimed =>
    let found := if claimed then selectInvite invite (asI64 r.now) (r.view invite db)
      else countUse invite (asI64 r.now) (r.view invite db)
    match found with
    | .ok (some row, _) => .found (!claimed) row
    | .ok (none, _) => .refused (isFull invite db (asI64 r.now))
    | .error _ => .failed
  | .found counted row =>
    match insertClaim invite r.user (r.view invite db) with
    | .ok _ => .inserted counted row
    | .error _ => .failed
  | .inserted _ row => .committed row
  | stage => stage

inductive Move
  /-- A user presents the invite. -/
  | present (user : String) (now : ℕ)
  /-- A transaction issues its next statement, or commits. -/
  | next (i : ℕ)
  /-- A statement of a transaction fails, and it is rolled back. -/
  | fail (i : ℕ)
deriving DecidableEq

/-- A transaction of many goes on. -/
def Redemptions.put (s : Redemptions) (i : ℕ) (r : Redemption) (stage : Stage) : Redemptions :=
  { s with all := s.all.set i { r with stage } }

def Redemptions.step (s : Redemptions) : Move → Redemptions
  | .present user now => { s with all := s.all ++ [{ user, now, stage := .begun }] }
  | .next i =>
    match s.all[i]? with
    | none => s
    | some r =>
      if s.waits invite i r then s
      else
        match r.stage with
        | .inserted _ row => { s.put i r (.committed row) with db := r.view invite s.db }
        | _ => s.put i r (r.next invite s.db)
  | .fail i =>
    match s.all[i]? with
    | none => s
    | some r => if r.stage.ended then s else s.put i r .failed

/-- No other redemption of the user is under way when one begins. -/
def Apart (s : Redemptions) : Move → Prop
  | .present user _ => ∀ r ∈ s.all, r.user = user → r.stage.ended = true
  | _ => True

instance decidableApart (s : Redemptions) : (move : Move) → Decidable (Apart s move)
  | .present user _ => inferInstanceAs (Decidable (∀ r ∈ s.all, r.user = user → _))
  | .next _ => .isTrue trivial
  | .fail _ => .isTrue trivial

/-- The uses of the invite, none if there is no such invite. -/
def usesOf (db : Db) : ℤ := ((db.invites.get? invite).map (·.uses)).getD 0

/-- The users who have a claim in a database that they had not in another. -/
def newClaims (db₀ db : Db) : Finset String :=
  ((db.inviteClaims.keys.filter fun key =>
    key.1 == invite && !db₀.inviteClaims.has key).map Prod.snd).toFinset

/-! ### What a transaction knows -/

variable {invite} {db db₀ : Db} {r : Redemption}

variable {user : String} {stage : Stage} {q : Redemption}

theorem mem_newClaims :
    user ∈ newClaims invite db₀ db ↔ db.inviteClaims.has (invite, user) = true ∧
      db₀.inviteClaims.has (invite, user) = false := by
  rw [newClaims, List.mem_toFinset, List.mem_map, Dict.has_iff_mem_keys]
  constructor
  · rintro ⟨⟨inv, u⟩, hmem, rfl⟩
    obtain ⟨hkey, htest⟩ := List.mem_filter.mp hmem
    simp only [Bool.and_eq_true, beq_iff_eq, Bool.not_eq_true'] at htest
    obtain ⟨rfl, hold⟩ := htest
    exact ⟨hkey, hold⟩
  · rintro ⟨hkey, hold⟩
    exact ⟨(invite, user), List.mem_filter.mpr ⟨hkey, by simp [hold]⟩, rfl⟩

/-- The `UPDATE` of a use finds a row and counts, or finds none. -/
theorem countUse_cases (hvalid : validText invite = true) (now : ℤ) (db : Db) :
    (countable invite db now = false ∧ countUse invite now db = .ok (none, db)) ∨
      ∃ row, db.invites.get? invite = some row ∧ countable invite db now = true ∧
        hasRoom row = true ∧
        countUse invite now db = .ok (some (row.group, row.payload),
          { db with invites := db.invites.set invite { row with uses := row.uses + 1 } }) := by
  have hbind : countUse invite now db = _ := if_pos (by simpa using hvalid)
  rw [hbind]
  cases hget : db.invites.get? invite with
  | none => exact .inl ⟨by simp [countable, hget], rfl⟩
  | some row =>
    dsimp only
    split
    · rename_i h
      exact .inr ⟨row, rfl, by simpa [countable, hget] using h, by simp_all, rfl⟩
    · rename_i h
      exact .inl ⟨by simpa [countable, hget] using h, rfl⟩

theorem selectInvite_eq (hinvite : validText invite = true) (now : ℤ) (db : Db) :
    selectInvite invite now db = .ok
      (((db.invites.get? invite).filter (unexpired · now)).map
        fun row => (row.group, row.payload), db) :=
  if_pos (by simp [hinvite])

theorem insertClaim_eq (hinvite : validText invite = true)
    (huser : validText user = true) (db : Db) :
    insertClaim invite user db =
      .ok ((), { db with inviteClaims := db.inviteClaims.setNew ((invite, user), ()) }) :=
  if_pos (by simp [hinvite, huser])

/-- What a transaction has found out is still so. -/
def Redemption.Sound (invite : String) (r : Redemption) (db : Db) : Prop :=
  match r.stage with
  | .looked claimed =>
    (validText invite = true ∧ validText r.user = true) ∧
      claimed = db.inviteClaims.has (invite, r.user)
  | .found counted _ | .inserted counted _ =>
    (validText invite = true ∧ validText r.user = true) ∧
      counted = !db.inviteClaims.has (invite, r.user) ∧
      (counted = true → countable invite db (asI64 r.now) = true)
  | .refused full =>
    full = true → db.inviteClaims.has (invite, r.user) = false ∧
      (db.invites.get? invite).any (!hasRoom ·) = true
  | _ => True

/-- **A statement other than the commit** tells the transaction something that is so. -/
theorem Redemption.Sound.next (h : r.Sound invite db) (hstage : ∀ c row, r.stage ≠ .inserted c row) :
    Redemption.Sound invite { r with stage := r.next invite db } db := by
  obtain ⟨user, now, stage⟩ := r
  cases stage with
  | begun =>
    simp only [Redemption.next, Redemption.view, lookup, binding]
    split
    · rename_i hok
      split at hok
      · rename_i hvalid
        cases hok
        rw [Redemption.Sound, ← Dict.has_eq_isSome]
        exact ⟨by simpa using hvalid, rfl⟩
      · cases hok
    · trivial
  | looked claimed =>
    obtain ⟨hvalid, hclaim⟩ := h
    cases claimed with
    | true =>
      -- A user with a claim is refused only for an invite that is gone or has expired.
      simp only [Redemption.next, Redemption.view, if_true, selectInvite_eq hvalid.1]
      cases hget : db.invites.get? invite with
      | none => exact fun hfull => absurd hfull (by simp [isFull, hget])
      | some row =>
        cases hexp : unexpired row (asI64 now) with
        | true =>
          simp only [Option.filter_some, hexp, if_true, Option.map_some]
          exact ⟨hvalid, congrArg (! ·) hclaim, fun hfalse => nomatch hfalse⟩
        | false =>
          simp only [Option.filter_some, hexp]
          exact fun hfull => absurd hfull (by simp [isFull, hget, hexp])
    | false =>
      simp only [Redemption.next, Redemption.view]
      rcases countUse_cases hvalid.1 (asI64 now) db with ⟨hno, heq⟩ | ⟨row, -, hyes, -, heq⟩
      · simp only [Bool.false_eq_true, if_false, heq]
        refine fun hfull => ⟨hclaim.symm, ?_⟩
        cases hget : db.invites.get? invite with
        | none => simp [isFull, hget] at hfull
        | some row =>
          simp only [isFull, hget, Option.any_some, Bool.and_eq_true] at hfull
          exact hfull.2
      · simp only [Bool.false_eq_true, if_false, heq]
        exact ⟨hvalid, congrArg (! ·) hclaim, fun _ => hyes⟩
  | found counted row =>
    obtain ⟨hvalid, hrest⟩ := h
    simp only [Redemption.next]
    rw [insertClaim_eq hvalid.1 hvalid.2]
    exact ⟨hvalid, hrest⟩
  | inserted counted row => exact absurd rfl (hstage counted row)
  | committed row => trivial
  | refused full => exact h
  | failed => trivial

/-- A statement after which a transaction has updated the row, and had not before. -/
theorem locks_next (h : (r.next invite db).locks = true) (hnot : r.stage.locks = false) :
    r.stage = .looked false ∧ countable invite db (asI64 r.now) = true := by
  obtain ⟨user, now, stage⟩ := r
  cases stage with
  | begun =>
    simp only [Redemption.next] at h
    split at h <;> cases h
  | looked claimed =>
    cases claimed with
    | true =>
      simp only [Redemption.next] at h
      split at h <;> cases h
    | false =>
      refine ⟨rfl, ?_⟩
      by_cases hvalid : validText invite = true
      · rcases countUse_cases hvalid (asI64 now) db with ⟨-, heq⟩ | ⟨-, -, hyes, -⟩
        · simp [Redemption.next, Redemption.view, heq, Stage.locks] at h
        · exact hyes
      · have heq : countUse invite (asI64 now) db = .error .invalidText :=
          if_neg (by simpa using hvalid)
        simp [Redemption.next, Redemption.view, heq, Stage.locks] at h
  | found counted row =>
    simp only [Redemption.next] at h
    split at h
    · cases h.symm.trans hnot
    · cases h
  | inserted counted row | committed row | refused full | failed => cases h

/-- A transaction that has ended stays so. -/
theorem ended_next (r : Redemption) (h : (r.next invite db).ended = false) :
    r.stage.ended = false := by
  obtain ⟨user, now, stage⟩ := r
  cases stage <;> first | rfl | cases h

/-- What a transaction that has inserted its claim leaves when it commits: nothing new for a user
with a claim, and a use and a claim for another one. -/
theorem view_inserted {counted : Bool} {row : String × Bytes} (hstage : r.stage = .inserted counted row)
    (h : r.Sound invite db) :
    (counted = false ∧ r.view invite db = db) ∨
      ∃ irow, counted = true ∧ db.inviteClaims.has (invite, r.user) = false ∧
        db.invites.get? invite = some irow ∧ hasRoom irow = true ∧
        (r.view invite db).invites = db.invites.set invite { irow with uses := irow.uses + 1 } ∧
        (r.view invite db).inviteClaims = db.inviteClaims.set (invite, r.user) () := by
  rw [Redemption.Sound, hstage] at h
  obtain ⟨hvalid, hcounted, hroom⟩ := h
  cases counted with
  | false =>
    refine .inl ⟨rfl, ?_⟩
    have hhas : db.inviteClaims.has (invite, r.user) = true := by simpa using hcounted
    rw [Redemption.view, hstage]
    dsimp only
    rw [Sql.Statement.after, insertClaim_eq hvalid.1 hvalid.2, Dict.setNew, if_pos hhas]
  | true =>
    have hhas : db.inviteClaims.has (invite, r.user) = false := by simpa using hcounted
    rcases countUse_cases hvalid.1 (asI64 r.now) db with ⟨hno, -⟩ | ⟨irow, hget, -, hirow, heq⟩
    · rw [hroom rfl] at hno
      cases hno
    · refine .inr ⟨irow, rfl, hhas, hget, hirow, ?_⟩
      rw [Redemption.view, hstage]
      simp only [Sql.Statement.after, heq, insertClaim_eq hvalid.1 hvalid.2, Dict.setNew, hhas,
        Bool.false_eq_true, if_false, and_self]

/-! ### The count -/

/-- The invariant of all transactions together. -/
structure Redemptions.Counted (invite : String) (db₀ : Db) (s : Redemptions) : Prop where
  start : ∀ {key : String × String}, db₀.inviteClaims.has key = true →
    s.db.inviteClaims.has key = true
  uses : usesOf invite s.db = usesOf invite db₀ + (newClaims invite db₀ s.db).card
  lock : ∀ {i j : ℕ} {r r' : Redemption}, s.all[i]? = some r → s.all[j]? = some r' →
    r.stage.locks = true → r'.stage.locks = true → i = j
  apart : ∀ {i j : ℕ} {r r' : Redemption}, s.all[i]? = some r → s.all[j]? = some r' →
    r.stage.ended = false → r'.stage.ended = false → r.user = r'.user → i = j
  sound : ∀ {i : ℕ} {r : Redemption}, s.all[i]? = some r → r.Sound invite s.db

variable {s : Redemptions} {i : ℕ}

theorem Stage.ended_of_locks (h : stage.locks = true) : stage.ended = false := by
  cases stage <;> first | rfl | cases h

theorem put_all {j : ℕ} (hget : s.all[i]? = some r) (h : (s.put i r stage).all[j]? = some q) :
    (j = i ∧ q = { r with stage }) ∨ (j ≠ i ∧ s.all[j]? = some q) := by
  rw [Redemptions.put, List.getElem?_set] at h
  split at h
  · rename_i hij
    have hlt : i < s.all.length := (List.getElem?_eq_some_iff.mp hget).1
    rw [if_pos hlt] at h
    exact .inl ⟨hij.symm, (Option.some.inj h).symm⟩
  · rename_i hij
    exact .inr ⟨Ne.symm hij, h⟩

/-- A transaction goes on and nothing is committed. -/
theorem Redemptions.Counted.put (h : s.Counted invite db₀) (hget : s.all[i]? = some r)
    (hended : stage.ended = false → r.stage.ended = false)
    (hlock : stage.locks = true → ∀ {j : ℕ} {q : Redemption}, s.all[j]? = some q →
      q.stage.locks = true → j = i) (hsound : Redemption.Sound invite { r with stage } s.db) :
    (s.put i r stage).Counted invite db₀ where
  start := h.start
  uses := h.uses
  lock := by
    intro j k q q' hq hq' hl hl'
    rcases put_all hget hq with ⟨rfl, rfl⟩ | ⟨-, hj⟩ <;>
      rcases put_all hget hq' with ⟨rfl, rfl⟩ | ⟨-, hk⟩
    · rfl
    · exact (hlock hl hk hl').symm
    · exact hlock hl' hj hl
    · exact h.lock hj hk hl hl'
  apart := by
    intro j k q q' hq hq' he he' huser
    rcases put_all hget hq with ⟨rfl, rfl⟩ | ⟨-, hj⟩ <;>
      rcases put_all hget hq' with ⟨rfl, rfl⟩ | ⟨-, hk⟩
    · rfl
    · exact h.apart hget hk (hended he) he' huser
    · exact h.apart hj hget he (hended he') huser
    · exact h.apart hj hk he he' huser
  sound := by
    intro j q hq
    rcases put_all hget hq with ⟨rfl, rfl⟩ | ⟨-, hq⟩
    · exact hsound
    · exact h.sound hq

theorem newClaims_insert {db' : Db}
    (hclaims : db'.inviteClaims = db.inviteClaims.set (invite, user) ())
    (hstart : db₀.inviteClaims.has (invite, user) = false) :
    newClaims invite db₀ db' = insert user (newClaims invite db₀ db) := by
  ext other
  simp only [Finset.mem_insert, mem_newClaims, hclaims, Dict.has_eq_isSome, Dict.get?_set] at hstart ⊢
  by_cases hother : other = user
  · subst hother
    simp [hstart]
  · simp [hother, Ne.symm hother]

/-- What is committed by one transaction is no news to the others: they are of other users, and if
a use was counted, nobody was refused for want of one. -/
theorem Redemption.Sound.commit {irow : InviteRow} {db' : Db}
    (h : q.Sound invite db) (huser : q.stage.ended = false → q.user ≠ user)
    (hlock : q.stage.locks = false) (hget : db.invites.get? invite = some irow)
    (hroom : hasRoom irow = true)
    (hclaims : db'.inviteClaims = db.inviteClaims.set (invite, user) ()) : q.Sound invite db' := by
  have hhas (hne : q.user ≠ user) :
      db'.inviteClaims.has (invite, q.user) = db.inviteClaims.has (invite, q.user) := by
    rw [hclaims, Dict.has_eq_isSome, Dict.has_eq_isSome, Dict.get?_set_of_ne]
    simpa using Ne.symm hne
  obtain ⟨quser, now, stage⟩ := q
  cases stage with
  | looked claimed => exact ⟨h.1, h.2.trans (hhas (huser rfl)).symm⟩
  | found counted row | inserted counted row =>
    obtain rfl : counted = false := hlock
    exact ⟨h.1, h.2.1.trans (congrArg (! ·) (hhas (huser rfl)).symm), fun hf => nomatch hf⟩
  | refused full =>
    intro hfull
    have hno := (h hfull).2
    simp [hget, hroom] at hno
  | begun => trivial
  | committed row => trivial
  | failed => trivial

/-- **A commit keeps the count.** -/
theorem Redemptions.Counted.commit (h : s.Counted invite db₀) (hget : s.all[i]? = some r)
    {counted : Bool} {row : String × Bytes} (hstage : r.stage = .inserted counted row) :
    Redemptions.Counted invite db₀ { s.put i r (.committed row) with db := r.view invite s.db } := by
  have hput : (s.put i r (.committed row)).Counted invite db₀ :=
    h.put hget (fun hf => nomatch hf) (fun hf => nomatch hf) trivial
  rcases view_inserted hstage (h.sound hget) with ⟨-, heq⟩ |
    ⟨irow, rfl, hhas, hinvite, hroom, hinvites, hclaims⟩
  · rw [heq]
    exact hput
  · have hnew : db₀.inviteClaims.has (invite, r.user) = false := by
      cases hold : db₀.inviteClaims.has (invite, r.user) with
      | false => rfl
      | true => cases hhas.symm.trans (h.start hold)
    have hnot : r.user ∉ newClaims invite db₀ s.db := by
      rw [mem_newClaims, hhas]
      exact fun hf => nomatch hf.1
    refine ⟨fun hold => ?_, ?_, hput.lock, hput.apart, ?_⟩
    · rw [hclaims, Dict.has_eq_isSome, Dict.get?_set]
      split
      · rfl
      · rw [← Dict.has_eq_isSome]
        exact h.start hold
    · have huses : usesOf invite (r.view invite s.db) = usesOf invite s.db + 1 := by
        rw [usesOf, usesOf, hinvites, Dict.get?_set_self, hinvite]
        rfl
      rw [newClaims_insert hclaims hnew, Finset.card_insert_of_notMem hnot, huses, h.uses,
        Nat.cast_add, Nat.cast_one, add_assoc]
    · intro j q hq
      rcases put_all hget hq with ⟨-, rfl⟩ | ⟨hne, hq⟩
      · trivial
      · refine (h.sound hq).commit (fun hended huser => ?_) ?_ hinvite hroom hclaims
        · exact hne (h.apart hq hget hended (by rw [hstage]; rfl) huser)
        · rw [← Bool.not_eq_true]
          exact fun hlock => hne (h.lock hq hget hlock (by rw [hstage]; rfl))

/-- Nobody else has updated the row when a transaction does. -/
theorem not_locked_of_not_waits (hwaits : s.waits invite i r = false)
    (hstage : r.stage = .looked false) (hcount : countable invite s.db (asI64 r.now) = true)
    {j : ℕ} (hq : s.all[j]? = some q) (hlock : q.stage.locks = true) : j = i := by
  by_contra hne
  rw [Redemptions.waits, hstage] at hwaits
  simp only [hcount, Bool.true_and, List.any_eq_false] at hwaits
  refine hwaits (q, j) (List.mem_zipIdx_iff_getElem?.mpr hq) ?_
  simp [hne, hlock, Stage.ended_of_locks hlock]

/-- **Every move keeps the count**, if users do not present the invite twice at once. -/
theorem Redemptions.Counted.step (h : s.Counted invite db₀) {move : Move} (hapart : Apart s move) :
    (s.step invite move).Counted invite db₀ := by
  cases move with
  | present user now =>
    -- The new transaction is the last one, and the only one of its user that has not ended.
    have hnew {j : ℕ} {q : Redemption} (hq : (s.step invite (.present user now)).all[j]? = some q) :
        s.all[j]? = some q ∨ (j = s.all.length ∧ q = { user, now, stage := .begun }) := by
      rw [Redemptions.step, List.getElem?_append] at hq
      split at hq
      · exact .inl hq
      · obtain ⟨hlt, heq⟩ := List.getElem?_eq_some_iff.mp hq
        simp only [List.length_singleton, Nat.lt_one_iff] at hlt
        simp only [hlt, List.getElem_cons_zero] at heq
        exact .inr ⟨by omega, heq.symm⟩
    have hother {j : ℕ} {q : Redemption} (hq : s.all[j]? = some q)
        (hended : q.stage.ended = false) : q.user ≠ user := by
      intro huser
      rw [hapart q (List.mem_of_getElem? hq) huser] at hended
      cases hended
    refine ⟨h.start, h.uses, fun hq hq' hl hl' => ?_, fun hq hq' he he' huser => ?_, fun hq => ?_⟩
    · rcases hnew hq with hq | ⟨-, rfl⟩
      · rcases hnew hq' with hq' | ⟨-, rfl⟩
        · exact h.lock hq hq' hl hl'
        · cases hl'
      · cases hl
    · rcases hnew hq with hq | ⟨rfl, rfl⟩ <;> rcases hnew hq' with hq' | ⟨rfl, rfl⟩
      · exact h.apart hq hq' he he' huser
      · exact absurd huser (hother hq he)
      · exact absurd huser.symm (hother hq' he')
      · rfl
    · rcases hnew hq with hq | ⟨-, rfl⟩
      · exact h.sound hq
      · trivial
  | next i =>
    rw [Redemptions.step]
    cases hget : s.all[i]? with
    | none => exact h
    | some r =>
      dsimp only
      split
      · exact h
      · rename_i hwaits
        split
        · rename_i counted row hstage
          exact h.commit hget hstage
        · rename_i hstage
          refine h.put hget (ended_next r) (fun hlock _ _ hq hlocked => ?_)
            ((h.sound hget).next hstage)
          cases hold : r.stage.locks with
          | true => exact h.lock hq hget hlocked hold
          | false =>
            obtain ⟨hlooked, hcount⟩ := locks_next hlock hold
            exact not_locked_of_not_waits (by simpa using hwaits) hlooked hcount hq hlocked
  | fail i =>
    rw [Redemptions.step]
    cases hget : s.all[i]? with
    | none => exact h
    | some r =>
      dsimp only
      split
      · exact h
      · exact h.put hget (fun hf => nomatch hf) (fun hf => nomatch hf) trivial

/-- **Redemptions at once count once per user.**  In every run in which no user presents the invite
while a redemption of theirs is under way, the uses have grown by the number of users with a new
claim, and nobody who was refused for want of uses has a claim. -/
theorem uses_grow_by_claims (invite : String) (db₀ : Db) (moves : List Move)
    (h : Along (Redemptions.step invite) Apart ⟨db₀, []⟩ moves) :
    let s := moves.foldl (Redemptions.step invite) ⟨db₀, []⟩
    usesOf invite s.db = usesOf invite db₀ + (newClaims invite db₀ s.db).card ∧
      ∀ r ∈ s.all, r.stage = .refused true → s.db.inviteClaims.has (invite, r.user) = false := by
  intro s
  have hnone : newClaims invite db₀ db₀ = ∅ := by
    refine Finset.eq_empty_of_forall_notMem fun user hmem => ?_
    obtain ⟨hnew, hold⟩ := mem_newClaims.mp hmem
    exact absurd (hnew.symm.trans hold) (by decide)
  have hstart : Redemptions.Counted invite db₀ ⟨db₀, []⟩ := by
    refine ⟨fun hold => hold, ?_, fun hq => ?_, fun hq => ?_, fun hq => ?_⟩
    · simp [hnone]
    all_goals simp at hq
  have hend : s.Counted invite db₀ := Along.preserves (fun _ _ hs hok => hs.step hok) h hstart
  refine ⟨hend.uses, fun r hr hstage => ?_⟩
  obtain ⟨i, hi⟩ := List.mem_iff_getElem?.mp hr
  have hsound := hend.sound hi
  rw [Redemption.Sound, hstage] at hsound
  exact (hsound rfl).1

/-- A database with a link to a group. -/
def withLink (maxUses : Option ℤ) : Db where
  inviteClaims := .empty
  invites := Dict.empty.set "link"
    { group := "circle", payload := [], expiresAt := none, maxUses, uses := 0 }

/-- Two users present the link at once. -/
def byTwoUsers : List Move :=
  [.present "bob" 0, .present "carol" 0, .next 0, .next 1, .next 0, .next 1, .next 0, .next 0,
    .next 1, .next 1, .next 1]

theorem two_users_count_twice :
    usesOf "link" (byTwoUsers.foldl (Redemptions.step "link") ⟨withLink none, []⟩).db = 2 := by
  have h := uses_grow_by_claims "link" (withLink none) byTwoUsers (by decide +kernel)
  have hnew : (newClaims "link" (withLink none)
      (byTwoUsers.foldl (Redemptions.step "link") ⟨withLink none, []⟩).db).card = 2 := by
    decide +kernel
  rw [h.1, hnew]
  rfl

/-- One user presents the link twice at once: both transactions look for a claim before the first of
them commits. -/
def byOneUser : List Move :=
  [.present "bob" 0, .present "bob" 0, .next 0, .next 1, .next 0, .next 0, .next 0, .next 1,
    .next 1, .next 1]

/-- They count two uses for one claim; and of a link with one use the second is refused, although
its user has a claim. -/
theorem one_user_counts_twice :
    (∀ r ∈ (byOneUser.foldl (Redemptions.step "link") ⟨withLink none, []⟩).all,
        r.stage.ended = true) ∧
      usesOf "link" (byOneUser.foldl (Redemptions.step "link") ⟨withLink none, []⟩).db = 2 ∧
      newClaims "link" (withLink none)
        (byOneUser.foldl (Redemptions.step "link") ⟨withLink none, []⟩).db = {"bob"} ∧
      (byOneUser.foldl (Redemptions.step "link") ⟨withLink (some 1), []⟩).all.map (·.stage) =
        [.committed ("circle", []), .refused true] ∧
      (byOneUser.foldl (Redemptions.step "link") ⟨withLink (some 1), []⟩).db.inviteClaims.has
        ("link", "bob") = true := by
  decide +kernel

end Quorum.Store.PgStore
