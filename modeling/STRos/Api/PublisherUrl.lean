import STRos.Model.Api

/-! # What extract_url reads from the URL of a publisher

The URL is cut at `/` and its second token at `:`. Host and port have to come
out of the second cut under the right types: a host that looks like a number
would not be a string.
-/

namespace STRos

open CString

/-! ## Tokens that are no numbers -/

theorem afterSign_cases (s : Bytes) :
    afterSign s = s ∨ ∃ c, (c = 43 ∨ c = 45) ∧ s = c :: afterSign s := by
  unfold afterSign
  split
  · exact Or.inr ⟨43, Or.inl rfl, rfl⟩
  · exact Or.inr ⟨45, Or.inr rfl, rfl⟩
  · exact Or.inl rfl

theorem mem_afterSign {s : Bytes} {b : Byte} (hb : b ∈ s) (hplus : b ≠ 43) (hminus : b ≠ 45) :
    b ∈ afterSign s := by
  cases afterSign_cases s with
  | inl h => rwa [h]
  | inr h =>
      obtain ⟨c, hc, hs⟩ := h
      rw [hs] at hb
      cases List.mem_cons.mp hb with
      | inl heq =>
          subst heq
          exact absurd hc (not_or.mpr ⟨hplus, hminus⟩)
      | inr hmem => exact hmem

/-- A number is digits, or digits around one dot. -/
theorem matchFloat_shape {s : Bytes} (h : matchFloat s = true) :
    ∃ whole frac, afterSign s = whole ++ 46 :: frac ∧ whole.all isDigit = true ∧
      frac.all isDigit = true := by
  unfold matchFloat at h
  split at h
  · rename_i frac hdrop
    simp only [Bool.and_eq_true] at h
    refine ⟨(afterSign s).takeWhile isDigit, frac, ?_, ?_, h.2⟩
    · rw [← hdrop, List.takeWhile_append_dropWhile]
    · exact List.all_eq_true.mpr fun b hb => List.mem_takeWhile_imp hb
  · cases h

def numberChar (b : Byte) : Bool := isDigit b || b = 43 || b = 45 || b = 46

theorem wordlike_of_mem {s : Bytes} {b : Byte} (hb : b ∈ s) (hchar : numberChar b = false) :
    Wordlike s := by
  simp only [numberChar, Bool.or_eq_false_iff, decide_eq_false_iff_not] at hchar
  obtain ⟨⟨⟨hdigit, hplus⟩, hminus⟩, hdot⟩ := hchar
  have hmem := mem_afterSign hb hplus hminus
  constructor
  · by_contra h
    simp only [matchInt, Bool.not_eq_false, Bool.and_eq_true, List.all_eq_true] at h
    exact absurd (h.2 b hmem) (by simp [hdigit])
  · by_contra h
    obtain ⟨whole, frac, hs, hwhole, hfrac⟩ := matchFloat_shape (by simpa using h)
    rw [hs, List.mem_append, List.mem_cons] at hmem
    rcases hmem with hmem | heq | hmem
    · exact absurd (List.all_eq_true.mp hwhole b hmem) (by simp [hdigit])
    · exact hdot heq
    · exact absurd (List.all_eq_true.mp hfrac b hmem) (by simp [hdigit])

theorem count_dot_eq_zero {ds : Bytes} (h : ds.all isDigit = true) : ds.count 46 = 0 := by
  rw [List.count_eq_zero]
  intro hmem
  exact absurd (List.all_eq_true.mp h 46 hmem) (by decide)

theorem count_afterSign (s : Bytes) : (afterSign s).count 46 = s.count 46 := by
  cases afterSign_cases s with
  | inl h => rw [h]
  | inr h =>
      obtain ⟨c, hc, hs⟩ := h
      have hne : c ≠ 46 := by
        cases hc with
        | inl hc => rw [hc]; decide
        | inr hc => rw [hc]; decide
      rw [hs, List.count_cons_of_ne hne, ← hs]

/-- Two dots are one too many. -/
theorem wordlike_of_dots {s : Bytes} (h : 2 ≤ s.count 46) : Wordlike s := by
  rw [← count_afterSign] at h
  constructor
  · by_contra hint
    simp only [matchInt, Bool.not_eq_false, Bool.and_eq_true] at hint
    have := count_dot_eq_zero hint.2
    omega
  · by_contra hfloat
    obtain ⟨whole, frac, hs, hwhole, hfrac⟩ := matchFloat_shape (by simpa using hfloat)
    rw [hs, List.count_append, List.count_cons_self, count_dot_eq_zero hwhole,
      count_dot_eq_zero hfrac] at h
    omega

theorem specialItem_decimalNat {p : Nat} (hp : p < 2147483648) :
    specialItem (decimalNat p) = .int (Int32.ofNat p) := by
  have hdigit : ∀ b ∈ decimalNat p, isDigit b = true := fun b hb => decimalNat_isDigit hb
  have hsign : afterSign (decimalNat p) = decimalNat p := by
    cases afterSign_cases (decimalNat p) with
    | inl h => exact h
    | inr h =>
        obtain ⟨c, hc, hs⟩ := h
        have hdig : isDigit c = true := hdigit c (by rw [hs]; simp)
        cases hc with
        | inl hc => rw [hc] at hdig; exact absurd hdig (by decide)
        | inr hc => rw [hc] at hdig; exact absurd hdig (by decide)
  have hint : matchInt (decimalNat p) = true := by
    simp only [matchInt, hsign, Bool.and_eq_true, decide_eq_true_eq, List.all_eq_true]
    exact ⟨decimalNat_ne_nil p, hdigit⟩
  have hval : (Int32.ofNat p).toInt = p := Int32.toInt_ofNat_of_lt hp
  have hatoi := atoi_decimal (Int32.ofNat p)
  rw [hval] at hatoi
  rw [specialItem, if_pos hint]
  exact congrArg Item.int hatoi

/-! ## The two cuts -/

def isLetter (b : Byte) : Bool := (65 ≤ b.toNat && b.toNat ≤ 90) || (97 ≤ b.toNat && b.toNat ≤ 122)

structure HostName (host : Bytes) : Prop where
  slash : ch '/' ∉ host
  colon : ch ':' ∉ host
  letterOrDots : (∃ b ∈ host, isLetter b = true) ∨ 2 ≤ host.count (ch '.')

theorem HostName.ne_nil {host : Bytes} (h : HostName host) : host ≠ [] := by
  intro hnil
  subst hnil
  cases h.letterOrDots with
  | inl hletter => simp at hletter
  | inr hdots => simp at hdots

theorem HostName.wordlike {host : Bytes} (h : HostName host) : Wordlike host := by
  cases h.letterOrDots with
  | inl hletter =>
      obtain ⟨b, hb, hlet⟩ := hletter
      apply wordlike_of_mem hb
      simp only [isLetter, Bool.or_eq_true, Bool.and_eq_true, decide_eq_true_eq] at hlet
      simp only [numberChar, isDigit, Bool.or_eq_false_iff, Bool.and_eq_false_iff,
        decide_eq_false_iff_not, ← UInt8.toNat_inj]
      refine ⟨⟨⟨?_, ?_⟩, ?_⟩, ?_⟩
      · omega
      · exact fun hb => by rw [hb] at hlet; exact absurd hlet (by decide)
      · exact fun hb => by rw [hb] at hlet; exact absurd hlet (by decide)
      · exact fun hb => by rw [hb] at hlet; exact absurd hlet (by decide)
  | inr hdots => exact wordlike_of_dots hdots

/-- `scheme//host:port/path` -/
def publisherUrl (scheme host : Bytes) (port : Nat) (path : Bytes) : Bytes :=
  scheme ++ str "//" ++ host ++ str ":" ++ decimalNat port ++ str "/" ++ path

theorem hostport_wordlike (host : Bytes) (port : Nat) :
    Wordlike (host ++ ch ':' :: decimalNat port) :=
  wordlike_of_mem (b := ch ':') (by simp) (by decide)

theorem avoids_of_notMem {d : Byte} {s : Bytes} (h : d ∉ s) : ∀ b ∈ s, b ∉ [d] := by
  intro b hb hmem
  rw [List.mem_singleton] at hmem
  exact h (hmem ▸ hb)

theorem digits_avoid {d : Byte} (hd : isDigit d = false) (n : Nat) : d ∉ decimalNat n := by
  intro hmem
  rw [decimalNat_isDigit hmem] at hd
  cases hd

theorem listAt_split_slash {scheme host : Bytes} (port : Nat) (path : Bytes)
    (hscheme : scheme ≠ []) (hslash : ch '/' ∉ scheme) (hhost : HostName host) :
    listAt (split (publisherUrl scheme host port path) (str "/")) 1 =
      some (.string (host ++ ch ':' :: decimalNat port)) := by
  have hurl : publisherUrl scheme host port path =
      scheme ++ ch '/' :: ch '/' :: ((host ++ ch ':' :: decimalNat port) ++ ch '/' :: path) := by
    simp [publisherUrl, show str "//" = [ch '/', ch '/'] from rfl, show str ":" = [ch ':'] from rfl,
      show str "/" = [ch '/'] from rfl]
  have hfree : ch '/' ∉ host ++ ch ':' :: decimalNat port := by
    rw [List.mem_append, List.mem_cons]
    rintro (hb | hb | hb)
    · exact hhost.slash hb
    · exact absurd hb (by decide)
    · exact digits_avoid (by decide) port hb
  have htokens : tokens (str "/") (publisherUrl scheme host port path) =
      scheme :: (host ++ ch ':' :: decimalNat port) :: tokens [ch '/'] path := by
    rw [hurl, show str "/" = [ch '/'] from rfl,
      tokens_append_cons (avoids_of_notMem hslash) hscheme (by simp), tokens_cons_delim (by simp),
      tokens_append_cons (avoids_of_notMem hfree) (by simp) (by simp)]
  rw [show (1 : Int) = ((1 : Nat) : Int) from rfl, listAt_ofNat,
    contents_of_proper (split_proper _ _), split_eq, htokens]
  simp [specialItem_of_wordlike (hostport_wordlike host port)]

theorem split_colon {host : Bytes} {port : Nat} (hhost : HostName host)
    (hport : port < 2147483648) :
    split (host ++ ch ':' :: decimalNat port) (str ":") =
      [.string host, .int (Int32.ofNat port)] := by
  rw [split_eq, show str ":" = [ch ':'] from rfl,
    tokens_append_cons (avoids_of_notMem hhost.colon) hhost.ne_nil (by simp),
    tokens_of_delimFree (avoids_of_notMem (digits_avoid (by decide) port)) (decimalNat_ne_nil port)]
  simp [specialItem_of_wordlike hhost.wordlike, specialItem_decimalNat hport]

/-- The address of the first publisher is understood, and without a publisher the
subscriber has none. Nothing else of the subscriber changes. -/
theorem extractUrl_understands (sub : Topic) (scheme host path : Bytes) (port : Nat) (more : RList)
    (hscheme : scheme ≠ []) (hslash : ch '/' ∉ scheme) (hhost : HostName host)
    (hport : 1 ≤ port ∧ port ≤ 65535) :
    extractUrl sub (.string (publisherUrl scheme host port path) :: more) =
        .ok { sub with uri := some host, port := Int32.ofNat port, status := .refresh } ∧
      (Int32.ofNat port).toInt = port ∧
      ∀ l, listSize l = 0 →
        extractUrl sub l = .ok { sub with uri := none, port := 0, status := .refresh } := by
  have hlt : port < 2147483648 := by omega
  refine ⟨?_, Int32.toInt_ofNat_of_lt hlt, fun l hl => by simp [extractUrl, hl]⟩
  have hsize : listSize (Item.string (publisherUrl scheme host port path) :: more) ≠ 0 := by
    simp [listSize, Item.isNil]
  have hfirst : listAt (Item.string (publisherUrl scheme host port path) :: more) 0 =
      some (.string (publisherUrl scheme host port path)) := by
    rw [show (0 : Int) = ((0 : Nat) : Int) from rfl, listAt_ofNat]
    rfl
  have hcolon := split_colon hhost hlt
  unfold extractUrl
  rw [if_neg hsize, hfirst]
  simp only [valueS, bind, Except.bind]
  rw [listAt_split_slash port path hscheme hslash hhost]
  simp only [hcolon]
  rfl

theorem extractUrl_understands_localhost :
    extractUrl ⟨str "/listener", str "/chatter", str "std_msgs/String", none, 0, .down⟩
        [.string (publisherUrl (str "http:") (str "localhost") 4000 [])] =
      .ok ⟨str "/listener", str "/chatter", str "std_msgs/String", some (str "localhost"),
        Int32.ofNat 4000, .refresh⟩ :=
  (extractUrl_understands _ (str "http:") (str "localhost") [] 4000 [] (by decide) (by decide)
    ⟨by decide, by decide, Or.inl ⟨ch 'l', by decide, by decide⟩⟩ (by decide)).1

end STRos
