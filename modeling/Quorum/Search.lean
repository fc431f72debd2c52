import Quorum.Board
import Quorum.Js.Sort

/-!
# Search in messages

A query is split into terms, and a message is a hit if it has all of them in lower case.  Hits are
listed newest first, up to a limit, each with a piece of the message in which a term is marked
(`search.js`).

The terms are looked for in the text of the message in lower case, while the piece is cut out of the
text with its white space collapsed, at places that are found in lower case.
-/

namespace Quorum.Search

open Js

/-- `SEARCH_LIMIT`. -/
def SEARCH_LIMIT : ℕ := 40

/-- `MIN_QUERY`. -/
def MIN_QUERY : ℕ := 2

/-- `SNIPPET_WIDTH`. -/
def SNIPPET_WIDTH : ℕ := 72

/-! ### Queries -/

/-- The piece of a query that is being read: between quotes or not, its units backwards. -/
inductive Reading
  | nothing
  | quoted (units : Str)
  | word (units : Str)

/-- The matches of `/"([^"]*)"|(\S+)/g`.  A quote that is not closed is part of a word. -/
def pieces : Reading → Str → List Str
  | .nothing, [] => []
  | .quoted units, [] => [units.reverse]
  | .word units, [] => [units.reverse]
  | .nothing, u :: s =>
    if isSpace u then pieces .nothing s
    else if u = unit '"' ∧ unit '"' ∈ s then pieces (.quoted []) s
    else pieces (.word [u]) s
  | .quoted units, u :: s =>
    if u = unit '"' then units.reverse :: pieces .nothing s else pieces (.quoted (u :: units)) s
  | .word units, u :: s =>
    if isSpace u then units.reverse :: pieces .nothing s else pieces (.word (u :: units)) s

/-- `parseQuery(query)`. -/
def parseQuery (platform : Platform) (query : Str) : List Str :=
  ((pieces .nothing query).map platform.toLowerCase).filter (· ≠ [])

/-- `matchesTerms(text, terms)`. -/
def matchesTerms (platform : Platform) (text : Str) (terms : List Str) : Bool :=
  !terms.isEmpty && terms.all fun t => decide (t <:+: platform.toLowerCase text)

/-! ### Snippets -/

/-- `hay.indexOf(t)`. -/
def indexOf (t hay : Str) : Option ℕ :=
  (List.range (hay.length + 1)).find? fun i => t.isPrefixOf (hay.drop i)

/-- The earlier of the best place so far and another one. -/
def earlier : Option ℕ → Option ℕ → Option ℕ
  | best, none => best
  | none, some i => some i
  | some best, some i => if i < best then some i else some best

/-- `firstHit(text, terms)`, on the text in lower case. -/
def firstHit (hay : Str) (terms : List Str) : Option ℕ :=
  terms.foldl (fun best t => earlier best (indexOf t hay)) none

/-- `s.replace(/\s+/g, ' ')`, after white space or not. -/
def collapse : Bool → Str → Str
  | _, [] => []
  | after, u :: s =>
    if isSpace u then if after then collapse true s else unit ' ' :: collapse true s
    else u :: collapse false s

def collapsed (text : Str) : Str := trim (collapse false text)

/-- `s.slice(i, j)`. -/
def cut (s : Str) (i j : ℕ) : Str := (s.take j).drop i

/-- `'…'`. -/
def ellipsis : CodeUnit := unit '…'

/-- `{ before, match, after }`. -/
structure Snippet where
  before : Str
  matched : Str
  after : Str
deriving DecidableEq

/-- The longest of the terms that begin at a place. -/
def longestAt (hay : Str) (terms : List Str) (i : ℕ) : Str :=
  (terms.filter fun t => t.isPrefixOf (hay.drop i)).foldl
    (fun a b => if a.length < b.length then b else a) []

/-- What `snippet` returns if no term occurs: the head of the line. -/
def headOf (src : Str) (width : ℕ) : Snippet :=
  ⟨if width < src.length then src.take width ++ [ellipsis] else src, [], []⟩

/-- What `snippet` returns if the term `hit` is found at a place. -/
def around (src hit : Str) (i width : ℕ) : Snippet :=
  let pad := (width - hit.length) / 2
  let start := i - pad
  let stop := min src.length (i + hit.length + pad)
  { before := (if 0 < start then [ellipsis] else []) ++ cut src start i
    matched := cut src i (i + hit.length)
    after := cut src (i + hit.length) stop ++ if stop < src.length then [ellipsis] else [] }

/-- `snippet(text, terms, width)`. -/
def snippet (platform : Platform) (text : Str) (terms : List Str) (width : ℕ) : Snippet :=
  match firstHit (platform.toLowerCase (collapsed text)) terms with
  | none => headOf (collapsed text) width
  | some i =>
    around (collapsed text) (longestAt (platform.toLowerCase (collapsed text)) terms i) i width

/-! ### Hits -/

/-- A hit.  Its time is a number. -/
structure Hit where
  server : Value
  channel : Value
  sender : Value
  ts : Number
  snippet : Snippet
  ts_ne_nan : ts ≠ .nan

/-- `searchableText(m)`. -/
def searchableText (m : Value) : Except Error Str := do
  let parts ← ([m.get (lit "text"), (m.get (lit "file")).get (lit "name")].filter
    Value.truthy).mapM Value.toStr
  return join (lit " ") parts

/-- `Number(m.ts) || 0`. -/
def orZero (x : Number) : Number := if x.truthy then x else 0

theorem orZero_ne_nan (x : Number) : orZero x ≠ .nan := by
  unfold orZero
  split
  · rintro rfl
    contradiction
  · intro h
    cases h

/-- What a row adds to the hits. -/
def hitOf (platform : Platform) (terms : List Str) (row : Value) : Except Error (Option Hit) := do
  let m := row.get (lit "message")
  if !m.truthy || (m.get (lit "system")).truthy then
    return none
  let text ← searchableText m
  if !matchesTerms platform text terms then
    return none
  let ts ← (m.get (lit "ts")).toNum
  return some
    { server := row.get (lit "server")
      channel := row.get (lit "channel")
      sender := m.get (lit "sender")
      ts := orZero ts
      snippet := snippet platform text terms SNIPPET_WIDTH
      ts_ne_nan := orZero_ne_nan ts }

/-- `(a, b) => b.ts - a.ts` leaves two hits as they are. -/
def Hit.newer (a b : Hit) : Prop := Number.cmpSub b.ts a.ts ≠ .gt

instance decidableNewer : DecidableRel Hit.newer :=
  fun a b => inferInstanceAs (Decidable (Number.cmpSub b.ts a.ts ≠ .gt))

/-- The query has no terms, or is too short. -/
def idle (platform : Platform) (query : Str) : Bool :=
  (parseQuery platform query).isEmpty || decide ((trim query).length < MIN_QUERY)

/-- `rankHits(rows, query, { limit })`. -/
def rankHits (platform : Platform) (rows : List Value) (query : Value) (limit : ℕ) :
    Except Error (List Hit × Bool) := do
  let query ← query.text
  if idle platform query then
    return ([], false)
  let found ← rows.mapM (hitOf platform (parseQuery platform query))
  let hits := found.filterMap id
  return ((hits.insertionSort Hit.newer).take limit, decide (limit < hits.length))

end Quorum.Search
