import Quorum.Envelope.Settings

/-!
# What a device rebroadcasts

A device sends its own view of a circle to the others, so that those who missed something can fill
their gaps.  What it keeps of the overview and the notices is sent as it is kept.

What crosses the wire is JSON, so a field that is `undefined` is not there, and objects and arrays
arrive as new ones.
-/

namespace Quorum

open Js

/-! ### Objects -/

/-- `{ name: value, … }`. -/
def record_ (props : List (String × Value)) : Value :=
  .ofDict (Dict.ofList (props.map fun p => (lit p.1, p.2)))

/-- A property of an object literal. -/
theorem get_record_ {props : List (String × Value)} {name : String} {v : Value}
    (hnodup : ((props.map fun p => (lit p.1, p.2)).map Prod.fst).Nodup) (h : (name, v) ∈ props) :
    (record_ props).get (lit name) = v :=
  get_written hnodup (List.mem_map.mpr ⟨_, h, rfl⟩)

/-- `...(v ? { name: v } : {})`. -/
def optional (name : String) (v : Option Value) : List (String × Value) :=
  (v.map fun v => (name, v)).toList

/-! ### The board and the ledger -/

def Notice.toValue (n : Notice) : Value :=
  record_ [("id", .str n.id), ("text", .str n.text), ("ts", .num n.ts), ("author", .str n.author)]

def Link.toValue (l : Link) : Value := record_ [("label", .str l.label), ("url", .str l.url)]

def Event.toValue (e : Event) : Value :=
  record_ ([("id", .str e.id), ("title", .str e.title), ("at", .num e.at_)] ++
    optional "note" (e.note.map .str) ++ optional "gameId" (e.gameId.map .str))

def LegacyEvent.toValue (e : LegacyEvent) : Value :=
  record_ ([("title", .str e.title), ("at", .num e.at_)] ++ optional "note" (e.note.map .str))

def GameKind.toValue : GameKind → Value
  | .activity => .str (lit "activity")
  | .server => .str (lit "server")

def Game.toValue (g : Game) : Value :=
  record_ ([("id", .str g.id), ("name", .str g.name), ("url", .str g.url),
    ("kind", g.kind.toValue)] ++ optional "note" (g.note.map .str) ++
    optional "glyph" (g.glyph.map .str))

def CircleGlyph.toValue : CircleGlyph → Value
  | .people => .str (lit "people")
  | .games => .str (lit "games")
  | .photo => .str (lit "photo")
  | .project => .str (lit "project")

/-- A list that is left out when empty. -/
def unlessNil {α : Type} (f : α → Value) (l : List α) : Option Value :=
  if l.isEmpty then none else some (.ofList (l.map f))

def Overview.toValue (o : Overview) : Value :=
  record_ ([("blurb", .str o.blurb), ("links", .ofList (o.links.map Link.toValue))] ++
    optional "glyph" (o.glyph.map CircleGlyph.toValue) ++
    optional "events" (unlessNil Event.toValue o.events) ++
    optional "event" (o.event.map LegacyEvent.toValue) ++
    optional "games" (unlessNil Game.toValue o.games))

end Quorum
