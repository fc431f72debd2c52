import Quorum.Link

/-!
# The address of an offer

The id stands in the query of the address and the key in its fragment, both in base64.  Neither holds
a sign at which an address, a query or a field is cut, so the id and the key are read back as they
were written.
-/

namespace Quorum.Link

open Js Store

variable {u : CodeUnit} {a b s : Str}

/-! ### Cutting at a sign -/

theorem join_eq_intercalate (sep : Str) (ls : List Str) : join sep ls = sep.intercalate ls := by
  induction ls with
  | nil => rfl
  | cons l ls ih =>
    cases ls with
    | nil => simp [join, List.intercalate]
    | cons l' ls =>
      change l ++ sep ++ join sep (l' :: ls) = _
      rw [ih, List.intercalate_cons_cons]

/-- What is joined by a separator that it does not have comes back. -/
theorem splitOn_join {ls : List Str} (hne : ls ≠ []) (h : ∀ l ∈ ls, u ∉ l) :
    (join [u] ls).splitOn u = ls := by
  rw [join_eq_intercalate]
  exact List.splitOn_intercalate u h hne

theorem takeWhile_ne_append (h : u ∉ a) : (a ++ u :: b).takeWhile (· ≠ u) = a := by
  rw [List.takeWhile_append_of_pos fun v hv => by simpa using ne_of_mem_of_not_mem hv h]
  simp

theorem dropWhile_ne_append (h : u ∉ a) : (a ++ u :: b).dropWhile (· ≠ u) = u :: b := by
  rw [List.dropWhile_append_of_pos fun v hv => by simpa using ne_of_mem_of_not_mem hv h]
  simp

theorem fromSign_append (h : u ∉ a) (hb : b ≠ []) : fromSign u (a ++ u :: b) = u :: b := by
  have hlen : ¬ (u :: b).length ≤ 1 := by
    have := List.length_pos_iff.2 hb
    rw [List.length_cons]
    omega
  simp only [fromSign, dropWhile_ne_append h, if_neg hlen]

/-- A sign that is not in base64. -/
theorem notMem_b64urlEnc {bytes : Bytes} (hu : isUrlChar u = false) : u ∉ b64urlEnc bytes := by
  intro h
  rw [isUrlChar_of_mem_b64urlEnc h] at hu
  cases hu

theorem b64urlEnc_ne_nil {bytes : Bytes} (h : 0 < bytes.length) : b64urlEnc bytes ≠ [] := by
  rw [← List.length_pos_iff, length_b64urlEnc]
  omega

/-! ### The query -/

theorem searchParam_link {formDecode : Str → Str}
    (hform : ∀ s, (∀ u ∈ s, isUrlChar u = true) → formDecode s = s)
    (hs : ∀ u ∈ s, isUrlChar u = true) :
    searchParam formDecode (lit "?link=" ++ s) (lit "link") = some s := by
  have hamp : unit '&' ∉ lit "link=" ++ s := by
    rw [List.mem_append, not_or]
    refine ⟨by decide, fun h => ?_⟩
    exact absurd (hs _ h) (by decide)
  have hsplit : (lit "link=" ++ s).splitOn (unit '&') = [lit "link=" ++ s] :=
    splitOn_join (List.cons_ne_nil (lit "link=" ++ s) []) (by simpa using hamp)
  have hname : (lit "link=" ++ s).takeWhile (· ≠ unit '=') = lit "link" :=
    takeWhile_ne_append (a := lit "link") (by decide)
  have hvalue : (lit "link=" ++ s).dropWhile (· ≠ unit '=') = unit '=' :: s :=
    dropWhile_ne_append (a := lit "link") (by decide)
  have hquery : (lit "?link=" ++ s).tail = lit "link=" ++ s := rfl
  have hhead : (lit "?link=" ++ s).head? = some (unit '?') := rfl
  have hne : lit "link=" ++ s ≠ [] := List.append_ne_nil_of_left_ne_nil (by decide) _
  have hlink : formDecode (lit "link") = lit "link" :=
    hform _ (List.all_eq_true.1 (by decide))
  simp only [searchParam, hhead, if_true, hquery, hsplit, List.filter_cons, hne, ne_eq,
    not_false_eq_true, decide_true, List.filter_nil, List.find?_cons, hname, hlink,
    Option.map_some, hvalue, List.drop_succ_cons, List.drop_zero, hform s hs]

/-! ### The fragment -/

theorem keyMatch_fragment (hs : ∀ u ∈ s, isUrlChar u = true) (hne : s ≠ []) :
    keyMatch (lit "#k=" ++ s) = some s := by
  have htake : s.takeWhile isUrlChar = s := List.takeWhile_eq_self_iff.2 hs
  change keyMatch (unit '#' :: unit 'k' :: unit '=' :: s) = some s
  have hsign : unit '#' ≠ unit 'k' := by decide
  rw [keyMatch, if_neg fun h => hsign h.1, keyMatch, htake, if_pos ⟨rfl, rfl, hne⟩]

/-! ### The address -/

variable {Private Key : Type} {subtle : WebCrypto Private Key} {pair : Private} {drawn : Draw 18}
  {origin : Origin}

theorem location_createLinkOffer :
    Location.of (createLinkOffer subtle pair drawn origin).url =
      ⟨lit "?link=" ++ b64urlEnc drawn.val, lit "#k=" ++ b64urlEnc (subtle.exportPub pair)⟩ := by
  -- the address up to the fragment has no other `#`, and up to the query no other `?`
  have hhash : unit '#' ∉ origin.text ++ lit "/?link=" ++ b64urlEnc drawn.val := by
    simp only [List.mem_append, not_or]
    exact ⟨⟨origin.hash_notMem, by decide⟩, notMem_b64urlEnc (by decide)⟩
  have hquery : unit '?' ∉ origin.text ++ lit "/" := by
    rw [List.mem_append, not_or]
    exact ⟨origin.query_notMem, by decide⟩
  have hurl : (createLinkOffer subtle pair drawn origin).url =
      (origin.text ++ lit "/?link=" ++ b64urlEnc drawn.val) ++
        unit '#' :: (lit "k=" ++ b64urlEnc (subtle.exportPub pair)) :=
    List.append_assoc _ (lit "#k=") _
  have hbefore : origin.text ++ lit "/?link=" ++ b64urlEnc drawn.val =
      (origin.text ++ lit "/") ++ unit '?' :: (lit "link=" ++ b64urlEnc drawn.val) := by
    rw [List.append_assoc, List.append_assoc]
    rfl
  rw [hurl]
  unfold Location.of
  rw [takeWhile_ne_append hhash,
    fromSign_append hhash (List.append_ne_nil_of_left_ne_nil (by decide) _), hbefore,
    fromSign_append hquery (List.append_ne_nil_of_left_ne_nil (by decide) _)]
  rfl

/-- The id and the key are read back. -/
theorem parseLinkUrl_createLinkOffer {formDecode : Str → Str}
    (hform : ∀ s, (∀ u ∈ s, isUrlChar u = true) → formDecode s = s)
    (hpub : 0 < (subtle.exportPub pair).length) :
    parseLinkUrl formDecode (Location.of (createLinkOffer subtle pair drawn origin).url) =
      .ok (some (b64urlEnc drawn.val, subtle.exportPub pair)) := by
  have hid : b64urlEnc drawn.val ≠ [] := b64urlEnc_ne_nil (by rw [drawn.property]; decide)
  rw [location_createLinkOffer]
  unfold parseLinkUrl
  rw [searchParam_link hform fun u => isUrlChar_of_mem_b64urlEnc,
    keyMatch_fragment (fun u => isUrlChar_of_mem_b64urlEnc) (b64urlEnc_ne_nil hpub)]
  dsimp only
  rw [if_neg hid, b64urlDec_enc]
  rfl

end Quorum.Link
