import Quorum.Js.Dict

/-!
# Entries that are to expire

A table keeps what was started under a key, with the time.  Starting something throws out every entry
that is `ttl` old or older, and finishing takes the entry of its key away, whatever its age.
-/

namespace Expiring

open Js

variable {K σ α : Type} [BEq K]

/-- What was started under each key, and when. -/
abbrev Table (K σ : Type) [BEq K] := Dict K (σ × ℕ)

namespace Table

/-- Throw out what is too old, and start something under a key. -/
def start (ttl now : ℕ) (key : K) (x : σ) (table : Table K σ) : Table K σ :=
  (table.filter fun _ p => decide (now - p.2 < ttl)).set key (x, now)

/-- Take the entry of a key away. -/
def finish (key : K) (table : Table K σ) : Table K σ := table.delete key

end Table

end Expiring
