import Quorum.Js.Text

/-!
# Base64 in an address

`b64url` (`invite.js`) is `btoa` with two signs exchanged for ones that an address may hold, and
without padding.  What it encodes it decodes (`b64urlDec_enc`), into letters, digits, `-` and `_`.
-/

namespace Js

/-- The character for six bits. -/
def sextetChar (n : ℕ) : CodeUnit :=
  if n < 26 then Fin.ofNat 65536 (65 + n)
  else if n < 52 then Fin.ofNat 65536 (71 + n)
  else if n < 62 then Fin.ofNat 65536 (n - 4)
  else if n = 62 then unit '+'
  else unit '/'

/-- Three bytes are four times six bits.  Bytes that are missing are zero. -/
def toSextets : List UInt8 → List ℕ
  | a :: b :: c :: rest =>
    a.toNat / 4 :: (a.toNat % 4 * 16 + b.toNat / 16) :: (b.toNat % 16 * 4 + c.toNat / 64) ::
      c.toNat % 64 :: toSextets rest
  | [a, b] => [a.toNat / 4, a.toNat % 4 * 16 + b.toNat / 16, b.toNat % 16 * 4]
  | [a] => [a.toNat / 4, a.toNat % 4 * 16]
  | [] => []

/-- `btoa(s)`, of a string with a character for every byte. -/
def btoa (bytes : List UInt8) : Str :=
  (toSextets bytes).map sextetChar ++ List.replicate ((3 - bytes.length % 3) % 3) (unit '=')

/-- `s.replaceAll('+', '-').replaceAll('/', '_')` on one character. -/
def toUrl (u : CodeUnit) : CodeUnit :=
  if u = unit '+' then unit '-' else if u = unit '/' then unit '_' else u

/-- `s.replaceAll('-', '+').replaceAll('_', '/')` on one character. -/
def ofUrl (u : CodeUnit) : CodeUnit :=
  if u = unit '-' then unit '+' else if u = unit '_' then unit '/' else u

/-- `b64url.enc(bytes)`. -/
def b64urlEnc (bytes : List UInt8) : Str :=
  ((btoa bytes).map toUrl).rdropWhile fun u => u == unit '='

/-- `b64url.dec(s)`. -/
def b64urlDec (s : Str) : Except Error (List UInt8) := atob (s.map ofUrl)

/-- `[A-Za-z0-9_-]`. -/
def isUrlChar (u : CodeUnit) : Bool :=
  (65 ≤ u.val && u.val ≤ 90) || (97 ≤ u.val && u.val ≤ 122) || (48 ≤ u.val && u.val ≤ 57) ||
    u == unit '_' || u == unit '-'

/-! ### Six bits -/

theorem toSextets_lt (bytes : List UInt8) : ∀ n ∈ toSextets bytes, n < 64 := by
  induction bytes using toSextets.induct with
  | case1 a b c rest ih =>
    have ha := a.toNat_lt
    have hb := b.toNat_lt
    intro n hn
    simp only [toSextets, List.mem_cons] at hn
    obtain rfl | rfl | rfl | rfl | hn := hn
    · omega
    · omega
    · have hc := c.toNat_lt
      omega
    · omega
    · exact ih n hn
  | case2 a b =>
    have ha := a.toNat_lt
    have hb := b.toNat_lt
    intro n hn
    simp only [toSextets, List.mem_cons, List.not_mem_nil, or_false] at hn
    omega
  | case3 a =>
    have ha := a.toNat_lt
    intro n hn
    simp only [toSextets, List.mem_cons, List.not_mem_nil, or_false] at hn
    omega
  | case4 => simp [toSextets]

theorem length_toSextets (bytes : List UInt8) :
    (toSextets bytes).length = (4 * bytes.length + 2) / 3 := by
  induction bytes using toSextets.induct with
  | case1 a b c rest ih =>
    simp only [toSextets, List.length_cons, ih]
    omega
  | case2 a b | case3 a | case4 => simp [toSextets]

theorem length_toSextets_mod (bytes : List UInt8) : (toSextets bytes).length % 4 ≠ 1 := by
  rw [length_toSextets]
  omega

theorem ofNat_of_toNat_eq {n : ℕ} {a : UInt8} (h : n % 256 = a.toNat) : UInt8.ofNat n = a := by
  apply UInt8.toNat_inj.mp
  rw [UInt8.toNat_ofNat']
  exact h

/-- The bits of bytes are the bytes again. -/
theorem ofSextets_toSextets (bytes : List UInt8) : ofSextets (toSextets bytes) = bytes := by
  induction bytes using toSextets.induct with
  | case1 a b c rest ih =>
    have ha := a.toNat_lt
    have hb := b.toNat_lt
    have hc := c.toNat_lt
    simp only [toSextets, ofSextets, ih]
    rw [ofNat_of_toNat_eq (a := a) (by omega), ofNat_of_toNat_eq (a := b) (by omega),
      ofNat_of_toNat_eq (a := c) (by omega)]
  | case2 a b =>
    have ha := a.toNat_lt
    have hb := b.toNat_lt
    simp only [toSextets, ofSextets]
    rw [ofNat_of_toNat_eq (a := a) (by omega), ofNat_of_toNat_eq (a := b) (by omega)]
  | case3 a =>
    have ha := a.toNat_lt
    simp only [toSextets, ofSextets]
    rw [ofNat_of_toNat_eq (a := a) (by omega)]
  | case4 => rfl

/-! ### Characters -/

/-- All that is said of the sixty-four characters. -/
theorem sextetChar_spec {n : ℕ} (h : n < 64) :
    sextet (sextetChar n) = some n ∧ isAsciiSpace (sextetChar n) = false ∧
      sextetChar n ≠ unit '=' ∧ ofUrl (toUrl (sextetChar n)) = sextetChar n ∧
      isUrlChar (toUrl (sextetChar n)) = true ∧ toUrl (sextetChar n) ≠ unit '=' := by
  have hall : ∀ n : Fin 64, sextet (sextetChar n.val) = some n.val ∧
      isAsciiSpace (sextetChar n.val) = false ∧ sextetChar n.val ≠ unit '=' ∧
      ofUrl (toUrl (sextetChar n.val)) = sextetChar n.val ∧
      isUrlChar (toUrl (sextetChar n.val)) = true ∧ toUrl (sextetChar n.val) ≠ unit '=' := by
    decide
  exact hall ⟨n, h⟩

/-- Without its padding an encoding is a character for every six bits. -/
theorem b64urlEnc_eq (bytes : List UInt8) :
    b64urlEnc bytes = (toSextets bytes).map fun n => toUrl (sextetChar n) := by
  generalize hchars : ((toSextets bytes).map fun n => toUrl (sextetChar n)) = chars
  have hne : ∀ u ∈ chars, u ≠ unit '=' := by
    rw [← hchars]
    intro u hu
    obtain ⟨n, hn, rfl⟩ := List.mem_map.mp hu
    exact (sextetChar_spec (toSextets_lt bytes n hn)).2.2.2.2.2
  have hsplit : (btoa bytes).map toUrl =
      chars ++ List.replicate ((3 - bytes.length % 3) % 3) (unit '=') := by
    rw [btoa, List.map_append, List.map_map, ← hchars, List.map_replicate]
    rfl
  have hpadding : ∀ u ∈ List.replicate ((3 - bytes.length % 3) % 3) (unit '='),
      (u == unit '=') = true := by
    intro u hu
    rw [List.eq_of_mem_replicate hu]
    exact beq_self_eq_true _
  rw [b64urlEnc, hsplit, List.rdropWhile, List.reverse_append, List.reverse_replicate,
    List.dropWhile_append_of_pos hpadding]
  have hself : chars.reverse.dropWhile (fun u => u == unit '=') = chars.reverse := by
    cases hrev : chars.reverse with
    | nil => rfl
    | cons u t =>
      have hu : u ∈ chars := List.mem_reverse.mp (hrev ▸ List.mem_cons_self ..)
      exact List.dropWhile_cons_of_neg (by simpa using hne u hu)
  rw [hself, List.reverse_reverse]

theorem length_b64urlEnc (bytes : List UInt8) :
    (b64urlEnc bytes).length = (4 * bytes.length + 2) / 3 := by
  rw [b64urlEnc_eq, List.length_map, length_toSextets]

theorem isUrlChar_of_mem_b64urlEnc {bytes : List UInt8} {u : CodeUnit}
    (h : u ∈ b64urlEnc bytes) : isUrlChar u = true := by
  rw [b64urlEnc_eq] at h
  obtain ⟨n, hn, rfl⟩ := List.mem_map.mp h
  exact (sextetChar_spec (toSextets_lt bytes n hn)).2.2.2.2.1

theorem mapM_eq_some {f : ℕ → Option ℕ} {l : List ℕ} (h : ∀ n ∈ l, f n = some n) :
    l.mapM f = some l := by
  induction l with
  | nil => rfl
  | cons a l ih =>
    rw [List.forall_mem_cons] at h
    rw [List.mapM_cons, h.1, ih h.2]
    rfl

/-- **What is encoded is decoded.** -/
theorem b64urlDec_enc (bytes : List UInt8) : b64urlDec (b64urlEnc bytes) = .ok bytes := by
  have hlt := toSextets_lt bytes
  have hchars : (b64urlEnc bytes).map ofUrl = (toSextets bytes).map sextetChar := by
    rw [b64urlEnc_eq, List.map_map]
    exact List.map_congr_left fun n hn => (sextetChar_spec (hlt n hn)).2.2.2.1
  have hspaces : ((toSextets bytes).map sextetChar).filter (fun u => !isAsciiSpace u) =
      (toSextets bytes).map sextetChar := by
    refine List.filter_eq_self.mpr fun u hu => ?_
    obtain ⟨n, hn, rfl⟩ := List.mem_map.mp hu
    rw [(sextetChar_spec (hlt n hn)).2.1]
    rfl
  have hpadding : dropPadding ((toSextets bytes).map sextetChar) =
      (toSextets bytes).map sextetChar := by
    have hlast : ((toSextets bytes).map sextetChar).getLast? ≠ some (unit '=') := by
      intro h
      obtain ⟨n, hn, hu⟩ := List.mem_map.mp (List.mem_of_getLast? h)
      exact (sextetChar_spec (hlt n hn)).2.2.1 hu
    unfold dropPadding
    split <;> rfl
  have hsextets : ((toSextets bytes).map sextetChar).mapM sextet = some (toSextets bytes) := by
    rw [List.mapM_map]
    exact mapM_eq_some fun n hn => (sextetChar_spec (hlt n hn)).1
  unfold b64urlDec atob
  rw [hchars]
  simp only [hspaces, hpadding, List.length_map, if_neg (length_toSextets_mod bytes), hsextets,
    ofSextets_toSextets]

end Js
