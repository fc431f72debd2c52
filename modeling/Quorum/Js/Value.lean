import Quorum.Js.Dict
import Quorum.Js.Except
import Quorum.Js.Number

/-!
# JavaScript values

What `JSON.parse` can return, plus `undefined` and the inherited properties that a lookup by a
computed name can run into (`native`).  Arrays and objects carry the identity of their allocation:
`===`, `Map`, `Set` and `includes` compare references and never contents, so two arrays that print
alike are different elements of a set.

`toStr` and `toNum` are `String(v)` and `Number(v)`.  Both go through the same conversion to a
primitive, which throws exactly on an object with an own property named `toString` (data is not
callable, and the inherited `valueOf` returns the object itself), alone or inside arrays.
-/

namespace Js

/-- An exception thrown by the language. -/
inductive Error
  | typeError
deriving DecidableEq, Repr

/-- A JavaScript value. -/
inductive Value
  | undefined
  | null
  | bool (b : Bool)
  | num (x : Number)
  | str (s : Str)
  /-- An array: its identity and its elements. -/
  | arr (ref : ℕ) (elems : List Value)
  /-- A plain object: its identity and its own properties in enumeration order. -/
  | obj (ref : ℕ) (props : List (Str × Value))
  /-- A property inherited from a built-in prototype, under its name. -/
  | native (name : Str)

namespace Value

instance : Inhabited Value := ⟨undefined⟩

/-! ### Tests -/

/-- `Boolean(v)`. -/
def truthy : Value → Bool
  | undefined => false
  | null => false
  | bool b => b
  | num x => x.truthy
  | str s => s ≠ []
  | arr _ _ => true
  | obj _ _ => true
  | native _ => true

/-- `v == null`. -/
def isNullish : Value → Bool
  | undefined => true
  | null => true
  | _ => false

/-- `v === undefined`. -/
def isUndefined : Value → Bool
  | undefined => true
  | _ => false

/-- `v ?? d`. -/
def orElse (v d : Value) : Value := if v.isNullish then d else v

/-- `typeof v === 'object'`, for a `v` already known not to be null. -/
def isObject : Value → Bool
  | arr _ _ => true
  | obj _ _ => true
  | native n => n = lit "__proto__"
  | _ => false

/-- `a === b`. -/
def strictEq : Value → Value → Bool
  | undefined, undefined => true
  | null, null => true
  | bool a, bool b => a == b
  | num a, num b => a.strictEq b
  | str a, str b => a == b
  | arr a _, arr b _ => a == b
  | obj a _, obj b _ => a == b
  | native a, native b => a == b
  | _, _ => false

/-- `SameValueZero`, the comparison of `Map`, `Set` and `includes`: as `===`, but NaN is itself. -/
def sameValueZero : Value → Value → Bool
  | num a, num b => a == b
  | a, b => strictEq a b

instance : BEq Value := ⟨sameValueZero⟩

@[simp] theorem str_beq (a b : Str) : (str a == str b) = (a == b) := rfl

theorem str_strictEq {s : Str} {v : Value} : (str s).strictEq v = true ↔ v = str s := by
  cases v with
  | str t =>
    rw [strictEq, beq_iff_eq, str.injEq]
    exact eq_comm
  | _ => exact ⟨nofun, nofun⟩

theorem strictEq_str {s : Str} {v : Value} : v.strictEq (str s) = true ↔ v = str s := by
  cases v <;> simp [strictEq]

theorem eq_str_of_beq {s : Str} {v : Value} (h : (v == str s) = true) : v = str s := by
  cases v with
  | str t => exact congrArg str (eq_of_beq h)
  | _ => cases h

/-- What `SameValueZero` looks at: the contents of a primitive, the identity of anything else. -/
inductive Ident
  | undefined
  | null
  | bool (b : Bool)
  | num (x : Number)
  | str (s : Str)
  | arr (ref : ℕ)
  | obj (ref : ℕ)
  | native (name : Str)

/-- The identity of a value. -/
def ident : Value → Ident
  | undefined => .undefined
  | null => .null
  | bool b => .bool b
  | num x => .num x
  | str s => .str s
  | arr ref _ => .arr ref
  | obj ref _ => .obj ref
  | native n => .native n

theorem beq_iff_ident {a b : Value} : (a == b) = true ↔ a.ident = b.ident := by
  change sameValueZero a b = true ↔ _
  cases a <;> cases b <;> simp [sameValueZero, strictEq, ident]

instance : EquivBEq Value where
  rfl := beq_iff_ident.mpr rfl
  symm h := beq_iff_ident.mpr (beq_iff_ident.mp h).symm
  trans h h' := beq_iff_ident.mpr ((beq_iff_ident.mp h).trans (beq_iff_ident.mp h'))

/-! ### Properties -/

/-- The property names of `Object.prototype`. -/
def objectProto : List Str :=
  [lit "constructor", lit "__defineGetter__", lit "__defineSetter__", lit "hasOwnProperty",
    lit "__lookupGetter__", lit "__lookupSetter__", lit "isPrototypeOf",
    lit "propertyIsEnumerable", lit "toString", lit "valueOf", lit "__proto__",
    lit "toLocaleString"]

/-- What a lookup finds under a name that is not an own property of a plain object. -/
def inherited (k : Str) : Value := if k ∈ objectProto then native k else undefined

/-- `v.k`, and `undefined` where `v?.k` is.  Arrays and strings are read by names of data fields
only; the one such name they inherit is the method `at`. -/
def get (v : Value) (k : Str) : Value :=
  match v with
  | obj _ props => ((props.find? fun p => p.1 == k).map Prod.snd).getD (inherited k)
  | arr _ _ => if k = lit "at" then native k else inherited k
  | str _ => if k = lit "at" then native k else inherited k
  | undefined => undefined
  | null => undefined
  | native _ => undefined
  | bool _ => inherited k
  | num _ => inherited k

/-- The name of an array index. -/
def indexName (i : ℕ) : Str := if i = 0 then lit "0" else Number.digits i

/-- The own enumerable properties, as `Object.entries` and spreads list them. -/
def ownProps : Value → List (Str × Value)
  | obj _ props => props
  | arr _ l => l.zipIdx.map fun p => (indexName p.2, p.1)
  | str s => s.zipIdx.map fun p => (indexName p.2, str [p.1])
  | _ => []

/-- The elements that `for..of` and array spreads run through. -/
def iterate : Value → Except Error (List Value)
  | arr _ l => .ok l
  | str s => .ok ((codePoints s).map str)
  | _ => .error .typeError

/-! ### Conversions -/

mutual

/-- `String(v)`. -/
def toStr : Value → Except Error Str
  | undefined => .ok (lit "undefined")
  | null => .ok (lit "null")
  | bool b => .ok (if b then lit "true" else lit "false")
  | num x => .ok x.toStr
  | str s => .ok s
  | arr _ elems => joinElems elems
  | obj _ props =>
    if props.any (fun p => p.1 == lit "toString") then .error .typeError
    else .ok (lit "[object Object]")
  | native n => .ok (lit "function " ++ n ++ lit "() \x7b [native code] \x7d")

/-- The elements of an array joined by commas, null and undefined as empty. -/
def joinElems : List Value → Except Error Str
  | [] => .ok []
  | v :: t =>
    match if v.isNullish then .ok [] else toStr v with
    | .error e => .error e
    | .ok s => if t.isEmpty then .ok s else (joinElems t).map fun r => s ++ unit ',' :: r

end

/-- `Number(v)`. -/
def toNum : Value → Except Error Number
  | undefined => .ok .nan
  | null => .ok 0
  | bool b => .ok (if b then .ofRat 1 else 0)
  | num x => .ok x
  | str s => .ok (.ofStr s)
  | native _ => .ok .nan
  | v => (toStr v).map .ofStr

/-- `String(v ?? '')`. -/
def text (v : Value) : Except Error Str := (v.orElse (str [])).toStr

/-! ### Objects and arrays that the code builds -/

/-- An object made of properties.  What the code builds it never compares by identity. -/
def ofDict (d : Dict Str Value) : Value := obj 0 d.entries

/-- An array made of elements. -/
def ofList (l : List Value) : Value := arr 0 l

/-- `{ ...v }` as a map of properties. -/
def spread (v : Value) : Dict Str Value := Dict.ofProps v.ownProps

/-- `[...(v ?? [])]`. -/
def elements (v : Value) : Except Error (List Value) := (v.orElse (ofList [])).iterate

/-- `l.sort()` on values that are not `undefined`: by their strings, which a single value is never
asked for. -/
def sort (l : List Value) : Except Error (List Value) :=
  if l.length ≤ 1 then .ok l
  else do
    let keyed ← l.mapM fun v => v.toStr.map fun s => (s, v)
    return (keyed.insertionSort fun a b => a.1 ≤ b.1).map Prod.snd

/-- Sorting keeps the values. -/
theorem perm_of_sort {l r : List Value} (h : sort l = .ok r) : r.Perm l := by
  have hkeyed : ∀ (l : List Value) keyed, l.mapM (fun v => v.toStr.map fun s => (s, v)) =
      .ok keyed → keyed.map Prod.snd = l := by
    intro l
    induction l with
    | nil =>
      rintro keyed ⟨⟩
      rfl
    | cons v l ih =>
      intro keyed hk
      obtain ⟨p, hp, rest, hrest, rfl⟩ := mapM_cons_eq_ok.mp hk
      obtain ⟨s, -, rfl⟩ := map_eq_ok.mp hp
      rw [List.map_cons, ih rest hrest]
  unfold sort at h
  split at h
  · cases h
    exact List.Perm.refl _
  · obtain ⟨keyed, hk, hr⟩ := bind_eq_ok.mp h
    cases hr
    rw [← hkeyed l keyed hk]
    exact (List.perm_insertionSort _ keyed).map Prod.snd

theorem get_ofDict (d : Dict Str Value) (k : Str) :
    (ofDict d).get k = (d.get? k).getD (inherited k) := rfl

/-- A copy of an object under other fields reads as the object. -/
theorem get_spread_setAll {ref : ℕ} {props l : List (Str × Value)} {k : Str}
    (h : k ∉ l.map Prod.fst) :
    (ofDict ((obj ref props).spread.setAll l)).get k = (obj ref props).get k := by
  rw [get_ofDict, Dict.get?_setAll_of_notMem h, spread, Dict.get?_ofProps]
  rfl

/-- Strings are sorted as strings. -/
theorem sort_map_str (l : List Str) :
    sort (l.map str) = .ok ((l.insertionSort (· ≤ ·)).map str) := by
  have hkeyed : ∀ l : List Str, (l.map str).mapM (fun v => v.toStr.map fun s => (s, v)) =
      .ok (l.map fun s => (s, str s)) := by
    intro l
    induction l with
    | nil => rfl
    | cons s l ih =>
      rw [List.map_cons, List.mapM_cons, ih]
      rfl
  unfold sort
  split
  next h =>
    match l, h with
    | [], _ => rfl
    | [_], _ => rfl
  next =>
    rw [hkeyed]
    change Except.ok _ = Except.ok _
    rw [← List.map_insertionSort (· ≤ ·) _ (fun s => (s, str s)) l fun _ _ _ _ => Iff.rfl,
      List.map_map]
    rfl

end Value

end Js
