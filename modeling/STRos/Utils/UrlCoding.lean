import STRos.Model.UrlCoding

/-! # What url_encode writes, url_decode reads

A character that is escaped is shifted as a signed number; the mask takes back what the
shift copies of the sign. The decoder looks two characters ahead, but not past a NUL.
-/

namespace STRos

open CString

/-! ## Digits -/

theorem hexDigits_spec : ∀ n < 16, ∃ d, hexDigits[n]? = some d ∧ fromHex d = UInt8.ofNat n ∧
    d ≠ 0 := by
  decide

theorem and_fifteen (c : Byte) : (c &&& 15).toNat = c.toNat % 16 := by
  rw [UInt8.toNat_and]
  exact Nat.and_two_pow_sub_one_eq_mod c.toNat 4

/-- The four bits behind the shift are those in front of it, whatever the sign. -/
theorem toChar_shift (c : Byte) : (toChar (schar c >>> (4 : Nat))).toNat % 16 = c.toNat / 16 := by
  have hlt := c.toNat_lt
  have hchar : (toChar (schar c >>> (4 : Nat))).toNat = (schar c / 16 % 256).toNat := by
    rw [toChar, UInt8.ofInt, UInt8.toNat_ofNat', Int.shiftRight_eq_div_pow]
    omega
  rw [hchar, schar]
  split
  · omega
  · omega

theorem join_nibbles (c : Byte) :
    UInt8.ofNat (c.toNat / 16) <<< 4 ||| UInt8.ofNat (c.toNat % 16) = c := by
  have hlt := c.toNat_lt
  have hhigh : (UInt8.ofNat (c.toNat / 16) <<< 4).toNat = 2 ^ 4 * (c.toNat / 16) := by
    have hpow : 2 ^ ((4 : Byte).toNat % 8) = 16 := rfl
    rw [UInt8.toNat_shiftLeft, UInt8.toNat_ofNat', Nat.shiftLeft_eq, hpow]
    omega
  have hlow : (UInt8.ofNat (c.toNat % 16)).toNat = c.toNat % 16 := by
    rw [UInt8.toNat_ofNat']
    omega
  rw [← UInt8.toNat_inj, UInt8.toNat_or, hhigh, hlow,
    ← Nat.two_pow_add_eq_or_of_lt (Nat.mod_lt _ (by decide))]
  omega

/-- The digits `url_encode` writes for a character are there, and are read as it. -/
theorem escape_spec (c : Byte) :
    ∃ high low, toHex (toChar (schar c >>> (4 : Nat))) = .ok high ∧ toHex (c &&& 15) = .ok low ∧
      high ≠ 0 ∧ low ≠ 0 ∧ fromHex high <<< 4 ||| fromHex low = c := by
  have hlt := c.toNat_lt
  obtain ⟨high, hhigh, hfrom, hne⟩ := hexDigits_spec (c.toNat / 16) (by omega)
  obtain ⟨low, hlow, hfrom', hne'⟩ := hexDigits_spec (c.toNat % 16) (by omega)
  refine ⟨high, low, ?_, ?_, hne, hne', ?_⟩
  · rw [toHex, and_fifteen, toChar_shift, charAt, hhigh]
    rfl
  · rw [toHex, and_fifteen, and_fifteen, Nat.mod_mod, charAt, hlow]
    rfl
  · rw [hfrom, hfrom', join_nibbles]

/-! ## Writing -/

theorem putChar_of_lt {cap : Nat} {buf : Bytes} (h : buf.length < cap) (c : Byte) :
    putChar cap buf c = .ok (buf ++ [c]) := by
  rw [putChar, Block.push_of_lt h]
  rfl

/-- What `url_encode` writes for a character. -/
def escape (c : Byte) : Bytes :=
  if isUnreserved c then [c]
  else if c = 32 then [43]
  else
    match toHex (toChar (schar c >>> (4 : Nat))), toHex (c &&& 15) with
    | .ok high, .ok low => [37, high, low]
    | _, _ => []

theorem escape_length (c : Byte) : 1 ≤ (escape c).length ∧ (escape c).length ≤ 3 := by
  obtain ⟨high, low, hhigh, hlow, -⟩ := escape_spec c
  unfold escape
  rw [hhigh, hlow]
  split
  · simp
  · split
    · simp
    · simp

theorem length_flatMap_escape (s : Bytes) :
    s.length ≤ (s.flatMap escape).length ∧ (s.flatMap escape).length ≤ 3 * s.length := by
  induction s with
  | nil => exact ⟨le_rfl, le_rfl⟩
  | cons c s ih =>
      obtain ⟨hlow, hhigh⟩ := escape_length c
      rw [List.flatMap_cons, List.length_append, List.length_cons]
      omega

theorem nulFree_escape {c : Byte} (hc : c ≠ 0) : NulFree (escape c) := by
  obtain ⟨high, low, hhigh, hlow, hne, hne', -⟩ := escape_spec c
  unfold escape
  rw [hhigh, hlow]
  split
  · exact nulFree_cons.mpr ⟨hc, NulFree.nil⟩
  · split
    · decide
    · exact nulFree_cons.mpr ⟨by decide, nulFree_cons.mpr ⟨hne, nulFree_cons.mpr
        ⟨hne', NulFree.nil⟩⟩⟩

theorem nulFree_flatMap_escape {s : Bytes} (hs : NulFree s) : NulFree (s.flatMap escape) := by
  intro hmem
  obtain ⟨c, hc, hzero⟩ := List.mem_flatMap.mp hmem
  have hne : c ≠ 0 := by
    rintro rfl
    exact hs hc
  exact nulFree_escape hne hzero

theorem urlEncodeLoop_cons {cap : Nat} {c : Byte} (hc : c ≠ 0) (pstr : Bytes) {buf : Bytes}
    (hroom : buf.length + 3 ≤ cap) :
    urlEncodeLoop cap (c :: pstr) buf = urlEncodeLoop cap pstr (buf ++ escape c) := by
  rw [urlEncodeLoop, if_neg hc, escape]
  by_cases hplain : isUnreserved c = true
  · rw [if_pos hplain, if_pos hplain, putChar_of_lt (by omega)]
    rfl
  · rw [if_neg hplain, if_neg hplain]
    by_cases hspace : c = 32
    · rw [if_pos hspace, if_pos hspace, putChar_of_lt (by omega)]
      rfl
    · obtain ⟨high, low, hhigh, hlow, -⟩ := escape_spec c
      rw [if_neg hspace, if_neg hspace, hhigh, hlow, putChar_of_lt (by omega)]
      simp only [bind, Except.bind]
      rw [putChar_of_lt (by rw [List.length_append, List.length_singleton]; omega)]
      simp only
      rw [putChar_of_lt (by simp only [List.length_append, List.length_singleton]; omega)]
      simp only [List.append_assoc, List.cons_append, List.nil_append]

/-- The loop writes each character in its own way, and a NUL. -/
theorem urlEncodeLoop_eq (cap : Nat) {s : Bytes} (hs : NulFree s) (buf : Bytes)
    (hroom : buf.length + 3 * s.length + 1 ≤ cap) :
    urlEncodeLoop cap (s ++ [0]) buf = .ok (buf ++ s.flatMap escape ++ [0]) := by
  induction s generalizing buf with
  | nil =>
      rw [List.length_nil] at hroom
      rw [List.nil_append, urlEncodeLoop, if_pos rfl, putChar_of_lt (by omega), List.flatMap_nil,
        List.append_nil]
  | cons c s ih =>
      obtain ⟨hc, hrest⟩ := nulFree_cons.mp hs
      have hlen := (escape_length c).2
      rw [List.length_cons] at hroom
      rw [List.cons_append, urlEncodeLoop_cons hc _ (by omega),
        ih hrest _ (by rw [List.length_append]; omega), List.flatMap_cons, List.append_assoc buf]

/-! ## Reading -/

theorem urlDecodeLoop_plain {cap : Nat} {c : Byte} (hc : c ≠ 0) (hpercent : c ≠ 37)
    (hplus : c ≠ 43) (rest : Bytes) {buf : Bytes} (hroom : buf.length < cap) :
    urlDecodeLoop cap (c :: rest) buf = urlDecodeLoop cap rest (buf ++ [c]) := by
  rw [urlDecodeLoop, if_neg hc, if_neg hpercent, if_neg hplus, putChar_of_lt hroom]
  rfl

theorem urlDecodeLoop_plus {cap : Nat} (rest : Bytes) {buf : Bytes} (hroom : buf.length < cap) :
    urlDecodeLoop cap (43 :: rest) buf = urlDecodeLoop cap rest (buf ++ [32]) := by
  rw [urlDecodeLoop, if_neg (by decide), if_neg (by decide), if_pos rfl, putChar_of_lt hroom]
  rfl

theorem urlDecodeLoop_escape {cap : Nat} {first second : Byte} (hfirst : first ≠ 0)
    (hsecond : second ≠ 0) (rest : Bytes) {buf : Bytes} (hroom : buf.length < cap) :
    urlDecodeLoop cap (37 :: first :: second :: rest) buf =
      urlDecodeLoop cap rest (buf ++ [fromHex first <<< 4 ||| fromHex second]) := by
  have hescapes : escapes (37 :: first :: second :: rest) = .ok true := by
    simp [escapes, charAt, inBounds, bind, Except.bind, hfirst, hsecond, pure, Except.pure]
  rw [urlDecodeLoop, if_neg (by decide), if_pos rfl, hescapes]
  simp only [bind, Except.bind, charAt, inBounds, List.getElem?_cons_succ, List.getElem?_cons_zero,
    if_true, List.drop_succ_cons, List.drop_zero]
  rw [putChar_of_lt hroom]

/-- A `%` in front of fewer than two characters is left out. -/
theorem urlDecodeLoop_short {cap : Nat} {rest : Bytes} {buf : Bytes}
    (hshort : escapes (37 :: rest) = .ok false) :
    urlDecodeLoop cap (37 :: rest) buf = urlDecodeLoop cap rest buf := by
  rw [urlDecodeLoop, if_neg (by decide), if_pos rfl, hshort]
  rfl

theorem urlDecodeLoop_end {cap : Nat} (rest : Bytes) {buf : Bytes} (hroom : buf.length < cap) :
    urlDecodeLoop cap (0 :: rest) buf = .ok (buf ++ [0]) := by
  rw [urlDecodeLoop, if_pos rfl, putChar_of_lt hroom]

/-! ## Both ways -/

theorem urlDecodeLoop_escaped {cap : Nat} {c : Byte} (hc : c ≠ 0) (rest : Bytes) {buf : Bytes}
    (hroom : buf.length < cap) :
    urlDecodeLoop cap (escape c ++ rest) buf = urlDecodeLoop cap rest (buf ++ [c]) := by
  unfold escape
  by_cases hplain : isUnreserved c = true
  · have hpercent : c ≠ 37 := by
      rintro rfl
      exact absurd hplain (by decide)
    have hplus : c ≠ 43 := by
      rintro rfl
      exact absurd hplain (by decide)
    rw [if_pos hplain]
    exact urlDecodeLoop_plain hc hpercent hplus rest hroom
  · rw [if_neg hplain]
    by_cases hspace : c = 32
    · rw [if_pos hspace, hspace]
      exact urlDecodeLoop_plus rest hroom
    · obtain ⟨high, low, hhigh, hlow, hne, hne', hjoin⟩ := escape_spec c
      rw [if_neg hspace, hhigh, hlow]
      have hread := urlDecodeLoop_escape hne hne' rest hroom
      rw [hjoin] at hread
      exact hread

theorem urlDecodeLoop_encoded (cap : Nat) {s : Bytes} (hs : NulFree s) (buf : Bytes)
    (hroom : buf.length + s.length + 1 ≤ cap) :
    urlDecodeLoop cap (s.flatMap escape ++ [0]) buf = .ok (buf ++ s ++ [0]) := by
  induction s generalizing buf with
  | nil =>
      rw [List.length_nil] at hroom
      rw [List.flatMap_nil, List.nil_append, urlDecodeLoop_end _ (by omega), List.append_nil]
  | cons c s ih =>
      obtain ⟨hc, hrest⟩ := nulFree_cons.mp hs
      rw [List.length_cons] at hroom
      rw [List.flatMap_cons, List.append_assoc, urlDecodeLoop_escaped hc _ (by omega),
        ih hrest _ (by rw [List.length_append, List.length_singleton]; omega),
        List.append_assoc buf]
      rfl

/-- Of any text no more is read than up to its NUL, and no more written than it is long. -/
theorem urlDecodeLoop_bounded (cap : Nat) {t : Bytes} (ht : NulFree t) (buf : Bytes)
    (hroom : buf.length + t.length + 1 ≤ cap) :
    ∃ written, urlDecodeLoop cap (t ++ [0]) buf = .ok written ∧
      written.length ≤ buf.length + t.length + 1 := by
  induction hn : t.length using Nat.strong_induction_on generalizing t buf with
  | _ n ih =>
      subst hn
      cases t with
      | nil =>
          rw [List.length_nil] at hroom
          exact ⟨_, urlDecodeLoop_end [] (by omega), by simp⟩
      | cons c t =>
          obtain ⟨hc, hrest⟩ := nulFree_cons.mp ht
          rw [List.length_cons] at hroom ih ⊢
          have hnext : ∀ d : Byte, ∃ written,
              urlDecodeLoop cap (t ++ [0]) (buf ++ [d]) = .ok written ∧
                written.length ≤ buf.length + (t.length + 1) + 1 := by
            intro d
            have hlen : (buf ++ [d]).length = buf.length + 1 := by simp
            obtain ⟨written, hread, hle⟩ := ih t.length (by omega) hrest (buf ++ [d]) (by omega) rfl
            exact ⟨written, hread, by omega⟩
          rw [List.cons_append]
          by_cases hpercent : c = 37
          · subst hpercent
            have hskip : ∃ written, urlDecodeLoop cap (t ++ [0]) buf = .ok written ∧
                written.length ≤ buf.length + (t.length + 1) + 1 := by
              obtain ⟨written, hread, hle⟩ := ih t.length (by omega) hrest buf (by omega) rfl
              exact ⟨written, hread, by omega⟩
            cases t with
            | nil => rwa [urlDecodeLoop_short rfl]
            | cons first t =>
                obtain ⟨hfirst, hrest⟩ := nulFree_cons.mp hrest
                cases t with
                | nil =>
                    have hescapes : escapes (37 :: ([first] ++ [0])) = .ok false := by
                      simp [escapes, charAt, inBounds, bind, Except.bind, hfirst, pure,
                        Except.pure]
                    rwa [urlDecodeLoop_short hescapes]
                | cons second t =>
                    obtain ⟨hsecond, hrest⟩ := nulFree_cons.mp hrest
                    rw [List.cons_append, List.cons_append,
                      urlDecodeLoop_escape hfirst hsecond _ (by omega)]
                    simp only [List.length_cons] at hroom ih ⊢
                    have hlen : ∀ d : Byte, (buf ++ [d]).length = buf.length + 1 := by simp
                    obtain ⟨written, hread, hle⟩ := ih t.length (by omega) hrest
                      (buf ++ [fromHex first <<< 4 ||| fromHex second])
                      (by rw [hlen]; omega) rfl
                    rw [hlen] at hle
                    exact ⟨written, hread, by omega⟩
          · by_cases hplus : c = 43
            · subst hplus
              rw [urlDecodeLoop_plus _ (by omega)]
              exact hnext 32
            · rw [urlDecodeLoop_plain hc hpercent hplus _ (by omega)]
              exact hnext c

/-- Decoding undoes encoding, and neither leaves the blocks it reads and writes. -/
theorem urlDecode_urlEncode :
    (∀ s, NulFree s → ∃ encoded decoded, urlEncode (s ++ [0]) = .ok encoded ∧
        encoded.length ≤ 3 * s.length + 1 ∧ urlDecode encoded = .ok decoded ∧
        cstr decoded = s) ∧
      ∀ t, NulFree t → ∃ decoded, urlDecode (t ++ [0]) = .ok decoded ∧
        decoded.length ≤ t.length + 1 := by
  have hstrlen : ∀ s : Bytes, NulFree s → cstr (s ++ [0]) = s := by
    intro s hs
    rw [cstr_append hs, cstr_zero_cons, List.append_nil]
  constructor
  · intro s hs
    have hlen := length_flatMap_escape s
    have hencoded := urlEncodeLoop_eq (s.length * 3 + 1) hs []
      (by rw [List.length_nil]; omega)
    have hdecoded := urlDecodeLoop_encoded ((cstr (s.flatMap escape ++ [0])).length + 1) hs []
      (by rw [hstrlen _ (nulFree_flatMap_escape hs), List.length_nil]; omega)
    refine ⟨_, _, ?_, ?_, hdecoded, ?_⟩
    · rw [urlEncode, hstrlen s hs, hencoded, List.nil_append]
    · rw [List.length_append, List.length_singleton]
      omega
    · exact hstrlen s hs
  · intro t ht
    obtain ⟨decoded, hread, hle⟩ := urlDecodeLoop_bounded (t.length + 1) ht []
      (by rw [List.length_nil]; omega)
    rw [List.length_nil, Nat.zero_add] at hle
    exact ⟨decoded, by rw [urlDecode, hstrlen t ht, hread], hle⟩

theorem urlDecode_urlEncode_bytes :
    (∃ encoded decoded, urlEncode ([97, 32, 233, 255, 37] ++ [0]) = .ok encoded ∧
      encoded.length ≤ 3 * 5 + 1 ∧ urlDecode encoded = .ok decoded ∧
      cstr decoded = [97, 32, 233, 255, 37]) ∧
      ∃ decoded, urlDecode (str "a%4" ++ [0]) = .ok decoded ∧ decoded.length ≤ 3 + 1 :=
  ⟨urlDecode_urlEncode.1 [97, 32, 233, 255, 37] (by decide),
    urlDecode_urlEncode.2 (str "a%4") (by decide)⟩

end STRos
