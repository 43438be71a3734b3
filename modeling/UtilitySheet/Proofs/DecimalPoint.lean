import UtilitySheet.Numeral

/-!
# Where a decimal point can be placed

`Numeral.place` counts the decimals in bytes, from the end of the digits. Main statement
(`exists_place_iff`): the point is placed exactly if the places are few enough and some character
of the padded digits begins that many bytes before their end. Digits of one byte each leave only
the first condition (`pointFits_of_narrow`).
-/

namespace UtilitySheet.Numeral

/-- How many bytes a text takes. -/
def bytes (s : Text) : Nat := s.foldr (fun c n => c.utf8Size + n) 0

@[simp]
theorem bytes_nil : bytes [] = 0 := rfl

@[simp]
theorem bytes_cons (c : Char) (s : Text) : bytes (c :: s) = c.utf8Size + bytes s := rfl

@[simp]
theorem bytes_append (s t : Text) : bytes (s ++ t) = bytes s + bytes t := by
  induction s with
  | nil => rw [List.nil_append, bytes_nil, Nat.zero_add]
  | cons c s ih => rw [List.cons_append, bytes_cons, ih, bytes_cons, Nat.add_assoc]

@[simp]
theorem bytes_reverse (s : Text) : bytes s.reverse = bytes s := by
  induction s with
  | nil => rfl
  | cons c s ih =>
    rw [List.reverse_cons, bytes_append, ih, bytes_cons, bytes_cons, bytes_nil]
    omega

theorem utf8Size_of_isDigit {c : Char} (h : c.isDigit = true) : c.utf8Size = 1 := by
  simp only [Char.isDigit, Bool.and_eq_true, decide_eq_true_eq] at h
  have hle : c.val ≤ 127 := UInt32.le_trans h.2 (by decide)
  simp [Char.utf8Size, hle]

/-- Characters of one byte each are counted. -/
theorem bytes_of_narrow {s : Text} (hs : ∀ c ∈ s, c.utf8Size = 1) : bytes s = s.length := by
  induction s with
  | nil => rfl
  | cons c s ih =>
    rw [bytes_cons, hs c (by simp), ih fun c hc => hs c (by simp [hc]), List.length_cons]
    omega

/-- Whether the point fits in front of the last `places` bytes of the payload's digits, zeros in
front of them included. -/
def PointFits (payload : Text) (places : Nat) : Prop :=
  places = 0 ∨ places < widest ∧
    ∃ whole decimals, padded (places + 1) (splitSign payload).2 = whole ++ decimals ∧
      bytes decimals = places

/-- A cut gives the text back, and its last part grows by the bytes asked for. -/
theorem eq_append_of_cutBytes {acc rev whole decimals : Text} {n : Nat}
    (h : cutBytes acc n rev = some (whole, decimals)) :
    rev.reverse ++ acc = whole ++ decimals ∧ bytes decimals = n + bytes acc := by
  fun_induction cutBytes acc n rev with
  | case1 acc rev =>
    obtain ⟨rfl, rfl⟩ := Prod.mk.inj (Option.some.inj h)
    simp
  | case2 => cases h
  | case3 acc n c rev hc ih =>
    obtain ⟨htext, hsize⟩ := ih h
    rw [bytes_cons] at hsize
    exact ⟨by simpa using htext, by omega⟩
  | case4 => cases h

/-- A part at the end whose bytes are those asked for is cut off. -/
theorem cutBytes_append (whole : Text) : ∀ (rev acc : Text),
    cutBytes acc (bytes rev) (rev ++ whole) = some (whole.reverse, rev.reverse ++ acc)
  | [], acc => by simp [cutBytes]
  | c :: rev, acc => by
    have hc := c.utf8Size_pos
    obtain ⟨k, hk⟩ : ∃ k, bytes (c :: rev) = k + 1 :=
      Nat.exists_eq_succ_of_ne_zero (by rw [bytes_cons]; omega)
    have hle : c.utf8Size ≤ k + 1 := by rw [← hk, bytes_cons]; omega
    have hrest : k + 1 - c.utf8Size = bytes rev := by rw [← hk, bytes_cons]; omega
    rw [hk, List.cons_append, cutBytes, if_pos hle, hrest, cutBytes_append whole rev (c :: acc)]
    simp

theorem cutBytes_reverse (whole decimals : Text) :
    cutBytes [] (bytes decimals) (whole ++ decimals).reverse = some (whole, decimals) := by
  have hcut := cutBytes_append whole.reverse decimals.reverse []
  simpa using hcut

theorem exists_cutBytes_iff {s : Text} {n : Nat} :
    (∃ cut, cutBytes [] n s.reverse = some cut) ↔
      ∃ whole decimals, s = whole ++ decimals ∧ bytes decimals = n := by
  constructor
  · rintro ⟨⟨whole, decimals⟩, h⟩
    obtain ⟨htext, hsize⟩ := eq_append_of_cutBytes h
    exact ⟨whole, decimals, by simpa using htext, by simpa using hsize⟩
  · rintro ⟨whole, decimals, rfl, rfl⟩
    exact ⟨_, cutBytes_reverse whole decimals⟩

/-- The point stands between two parts of the padded digits. -/
theorem place_eq_ok {payload sign digits whole decimals : Text} {places : Nat}
    (hpayload : splitSign payload = (sign, digits))
    (hdigits : padded (places + 1) digits = whole ++ decimals) (hbytes : bytes decimals = places)
    (hzero : places ≠ 0) (hplaces : places < widest) :
    place payload places = .ok (sign ++ whole ++ '.' :: decimals) := by
  have hcut := cutBytes_reverse whole decimals
  rw [hbytes, ← hdigits] at hcut
  simp only [place, if_neg hzero, if_neg (Nat.not_lt.2 hplaces), hpayload, hcut]

/-- The point is placed exactly where it fits. -/
theorem exists_place_iff {payload : Text} {places : Nat} :
    (∃ numeral, place payload places = .ok numeral) ↔ PointFits payload places := by
  by_cases hzero : places = 0
  · subst hzero
    exact ⟨fun _ => .inl rfl, fun _ => ⟨payload, place_zero payload⟩⟩
  by_cases hwide : places + 1 > widest
  · constructor
    · rintro ⟨numeral, h⟩
      simp [place, hzero, hwide] at h
    · rintro (h | ⟨h, -⟩)
      · exact absurd h hzero
      · omega
  have hcut := exists_cutBytes_iff (s := padded (places + 1) (splitSign payload).2) (n := places)
  constructor
  · rintro ⟨numeral, h⟩
    refine .inr ⟨by omega, hcut.1 ?_⟩
    simp only [place, if_neg hzero, if_neg hwide] at h
    split at h
    · exact ⟨_, ‹_›⟩
    · cases h
  · rintro (h | ⟨-, h⟩)
    · exact absurd h hzero
    · obtain ⟨cut, hcut⟩ := hcut.2 h
      simp only [place, if_neg hzero, if_neg hwide, hcut]
      exact ⟨_, rfl⟩

/-- In digits of one byte each every point fits that has few enough places. -/
theorem pointFits_of_narrow {payload : Text} {places : Nat} (hplaces : places < widest)
    (hnarrow : ∀ c ∈ (splitSign payload).2, c.utf8Size = 1) : PointFits payload places := by
  refine .inr ⟨hplaces, ?_⟩
  generalize hp : padded (places + 1) (splitSign payload).2 = digits
  have hdigits : ∀ c ∈ digits, c.utf8Size = 1 := by
    intro c hc
    rw [← hp, padded, List.mem_append] at hc
    rcases hc with hc | hc
    · rw [List.eq_of_mem_replicate hc]; rfl
    · exact hnarrow c hc
  have hlength : places ≤ digits.length := by
    rw [← hp, length_padded]
    omega
  refine ⟨digits.take (digits.length - places), digits.drop (digits.length - places),
    (List.take_append_drop ..).symm, ?_⟩
  rw [bytes_of_narrow fun c hc => hdigits c (List.mem_of_mem_drop hc), List.length_drop]
  omega

end UtilitySheet.Numeral
