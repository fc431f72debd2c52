import Quorum.Js.Value

/-!
# Objects used as tables

A plain object that is read and written under computed names.  A lookup that finds no own property
goes on to the prototype, so `t["constructor"]` is never undefined.  An assignment under the name
`__proto__` that finds no own property replaces the prototype and creates nothing; a property
written in an object literal is always an own one.

Own properties are kept in the order they were written.  That the language lists names which are
array indices first is not modelled, since nothing below depends on the order of a table.
-/

namespace Js

/-- A plain object: its own properties, and a prototype other than `Object.prototype`. -/
structure Table where
  own : Dict Str Value
  proto : Option Value := none

namespace Table

/-- `{}`. -/
def empty : Table := { own := Dict.empty }

instance : Inhabited Table := ⟨empty⟩

/-- `t[k]`. -/
def get (t : Table) (k : Str) : Value :=
  match t.own.get? k, t.proto with
  | some v, _ => v
  | none, none => Value.inherited k
  | none, some p => if k = lit "__proto__" then p else p.get k

/-- `t[k] = v` for an object `v`. -/
def assign (t : Table) (k : Str) (v : Value) : Table :=
  if k = lit "__proto__" ∧ t.own.has k = false then { t with proto := some v }
  else { t with own := t.own.set k v }

/-- `{ ...t, [k]: v }`. -/
def define (t : Table) (k : Str) (v : Value) : Table := { own := t.own.set k v }

/-- `delete t[k]`. -/
def delete (t : Table) (k : Str) : Table := { t with own := t.own.delete k }

/-- `{ ...t }`. -/
def copy (t : Table) : Table := { own := t.own }

/-- `{ ...v }`. -/
def ofValue (v : Value) : Table := { own := v.spread }

/-- An own property is what a lookup finds. -/
theorem get_of_own {t : Table} {k : Str} {v : Value} (h : t.own.get? k = some v) :
    t.get k = v := by
  unfold get
  rw [h]

/-- An assignment writes an own property that exists, and leaves the others alone. -/
theorem own_assign_get? {t : Table} {k c : Str} {v w : Value} (h : t.own.get? c = some w) :
    (t.assign k v).own.get? c = some (if k = c then v else w) := by
  unfold assign
  by_cases hk : k = c
  · subst hk
    have hhas : t.own.has k = true := by rw [Dict.has_eq_isSome, h]; rfl
    rw [if_neg (by simp [hhas]), if_pos rfl]
    exact Dict.get?_set_self ..
  · rw [if_neg hk]
    split
    · exact h
    · rw [← h]
      exact Dict.get?_set_of_ne _ _ hk

end Table

end Js
