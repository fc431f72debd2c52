import Quorum.Js.Value

/-!
# Text of JSON, and bytes in base64

`atob` is forgiving: it skips white space and does not ask for padding.  It throws on everything
else that is no base64.
-/

namespace Js

/-! ### Base64 -/

/-- White space of ASCII. -/
def isAsciiSpace (u : CodeUnit) : Bool :=
  u.val == 9 || u.val == 10 || u.val == 12 || u.val == 13 || u.val == 32

/-- The six bits that a character stands for. -/
def sextet (u : CodeUnit) : Option ℕ :=
  if 65 ≤ u.val ∧ u.val ≤ 90 then some (u.val - 65)
  else if 97 ≤ u.val ∧ u.val ≤ 122 then some (u.val - 71)
  else if 48 ≤ u.val ∧ u.val ≤ 57 then some (u.val + 4)
  else if u.val = 43 then some 62
  else if u.val = 47 then some 63
  else none

/-- Four times six bits are three bytes.  Bits that do not fill a byte are dropped. -/
def ofSextets : List ℕ → List UInt8
  | a :: b :: c :: d :: rest =>
    UInt8.ofNat (a * 4 + b / 16) :: UInt8.ofNat (b * 16 + c / 4) :: UInt8.ofNat (c * 64 + d) ::
      ofSextets rest
  | [a, b, c] => [UInt8.ofNat (a * 4 + b / 16), UInt8.ofNat (b * 16 + c / 4)]
  | [a, b] => [UInt8.ofNat (a * 4 + b / 16)]
  | _ => []

/-- One or two signs of padding taken off a text of full length. -/
def dropPadding (s : Str) : Str :=
  if s.length % 4 = 0 then
    if s.getLast? = some (unit '=') then
      let s := s.dropLast
      if s.getLast? = some (unit '=') then s.dropLast else s
    else s
  else s

/-- `atob(s)` as bytes.  An exception is an exception, whatever its class. -/
def atob (s : Str) : Except Error (List UInt8) :=
  let s := dropPadding (s.filter fun u => !isAsciiSpace u)
  if s.length % 4 = 1 then .error .typeError
  else
    match s.mapM sextet with
    | none => .error .typeError
    | some l => .ok (ofSextets l)

/-! ### JSON -/

/-- A digit of a number in base sixteen. -/
def hexDigit (n : ℕ) : CodeUnit := Fin.ofNat 65536 (if n < 10 then 48 + n else 87 + n)

/-- `\uXXXX`. -/
def unicodeEscape (u : CodeUnit) : Str :=
  lit "\\u" ++ [hexDigit (u.val / 4096), hexDigit (u.val / 256 % 16), hexDigit (u.val / 16 % 16),
    hexDigit (u.val % 16)]

/-- One code point inside a string of JSON. -/
def escape : Str → Str
  | [u] =>
    if u = unit '"' then lit "\\\""
    else if u = unit '\\' then lit "\\\\"
    else if u.val = 8 then lit "\\b"
    else if u.val = 9 then lit "\\t"
    else if u.val = 10 then lit "\\n"
    else if u.val = 12 then lit "\\f"
    else if u.val = 13 then lit "\\r"
    else if u.val < 32 ∨ 0xD800 ≤ u.val ∧ u.val ≤ 0xDFFF then unicodeEscape u
    else [u]
  | s => s

/-- `JSON.stringify(s)` for a string. -/
def quote (s : Str) : Str := unit '"' :: ((codePoints s).flatMap escape ++ [unit '"'])

/-- `JSON.stringify(x)` for a number. -/
def jsonNumber (x : Number) : Str := if x.isFinite then x.toStr else lit "null"

end Js
