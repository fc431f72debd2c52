import Quorum.Store

/-!
# Invites in Postgres

The tables of invites of `PgStore` in `pg.rs`, and the statements that redeem an invite.  A table with
a primary key is a map from keys to rows, so that no key occurs twice.  Each SQL statement is a
definition here: it answers and leaves a database, or raises an error and leaves it as it was.

Numbers are cast to columns of 64 bits with a sign (`asI64`), as the source does with `as`; arithmetic
inside the database does not overflow here.  A text that holds the character zero cannot be a
parameter.
-/

namespace Sql

variable {Db E α : Type}

abbrev Statement (Db E α : Type) := Db → Except E (α × Db)

def Statement.after (s : Statement Db E α) (db : Db) : Db :=
  match s db with
  | .ok (_, db') => db'
  | .error _ => db

def query (f : Db → α) : Statement Db E α := fun db => .ok (f db, db)

end Sql

namespace Quorum.Store

open Js (Dict)
open Sql (Statement query)

/-- `n as i64`. -/
def asI64 (n : ℕ) : ℤ := Int.bmod n (2 ^ 64)

/-! ### The tables -/

/-- A row of `invites`, by `invite_id`. -/
structure InviteRow where
  group : String
  payload : Bytes
  expiresAt : Option ℤ
  maxUses : Option ℤ
  uses : ℤ
deriving DecidableEq

/-- The database, without the columns that only say when a row was written. -/
structure Db where
  /-- By `invite_id` and `user_id`. -/
  inviteClaims : Dict (String × String) Unit
  invites : Dict String InviteRow

/-- Why a statement fails by itself: a text holds the character zero. -/
inductive SqlError
  | invalidText

namespace PgStore

abbrev Stmt (α : Type) := Statement Db SqlError α

def validText (text : String) : Bool := !text.toList.contains (Char.ofNat 0)

/-- A statement with texts as parameters. -/
def binding {α : Type} (texts : List String) (s : Stmt α) : Stmt α := fun db =>
  if texts.all validText then s db else .error .invalidText

/-- `SELECT … WHERE key = …`, by primary key. -/
def lookup {K V : Type} [BEq K] (texts : List String) (table : Db → Dict K V) (key : K) :
    Stmt (Option V) :=
  binding texts (query fun db => (table db).get? key)

/-! ### Invites -/

/-- `expires_at IS NULL OR expires_at >= $2`. -/
def unexpired (row : InviteRow) (now : ℤ) : Bool := row.expiresAt.all (now ≤ ·)

/-- `max_uses IS NULL OR uses < max_uses`. -/
def hasRoom (row : InviteRow) : Bool := row.maxUses.all (row.uses < ·)

/-- `SELECT group_id, payload FROM invites WHERE invite_id = $1 AND …`. -/
def selectInvite (invite : String) (now : ℤ) : Stmt (Option (String × Bytes)) :=
  binding [invite] <| query fun db =>
    ((db.invites.get? invite).filter (unexpired · now)).map fun row => (row.group, row.payload)

/-- `UPDATE invites SET uses = uses + 1 WHERE invite_id = $1 AND … RETURNING group_id, payload`. -/
def countUse (invite : String) (now : ℤ) : Stmt (Option (String × Bytes)) :=
  binding [invite] fun db =>
    match db.invites.get? invite with
    | none => .ok (none, db)
    | some row =>
      if unexpired row now && hasRoom row then
        .ok (some (row.group, row.payload),
          { db with invites := db.invites.set invite { row with uses := row.uses + 1 } })
      else .ok (none, db)

/-- `INSERT INTO invite_claims … ON CONFLICT DO NOTHING`. -/
def insertClaim (invite user : String) : Stmt Unit :=
  binding [invite, user] fun db =>
    .ok ((), { db with inviteClaims := db.inviteClaims.setNew ((invite, user), ()) })

end PgStore

end Quorum.Store
