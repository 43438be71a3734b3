import Mathlib.Algebra.Group.Nat.Defs
import UtilitySheet.Rule

/-!
# Equal priorities

Two floating-point numbers can be equal as numbers and still not be the same: zero has two signs.
That is the only such case (`eq_or_oppositeZeros_of_beq`), and the order of weights tells the two
apart. The logical model of `Float` gives the reason: what a pattern of bits stands for determines
the pattern, unless it is no number.
-/

namespace UtilitySheet.Weight

open Float.Model Float.Model.UnpackedFloat

/-- The two zeros, in either order. -/
def OppositeZeros (x y : Float) : Prop := x = 0.0 ∧ y = -0.0 ∨ x = -0.0 ∧ y = 0.0

instance (x y : Float) : Decidable (OppositeZeros x y) :=
  inferInstanceAs (Decidable (_ ∨ _))

theorem not_oppositeZeros_self (x : Float) : ¬ OppositeZeros x x := by
  rintro (⟨rfl, h⟩ | ⟨rfl, h⟩)
  · exact absurd h (by decide)
  · exact absurd h (by decide)

/-! ## What a pattern of bits stands for -/

/-- A pattern of bits is its sign, its exponent and its mantissa. -/
theorem packComponents_fields (b : BitVec Format.binary64.numBits) :
    packComponents Format.binary64 (Sign.ofBitVec (unpackSign b)) (unpackExponent b)
      (unpackMantissa b) = b := by
  have hsign : (Sign.ofBitVec (unpackSign b)).toBitVec = unpackSign b := by
    generalize unpackSign b = s
    revert s
    decide
  rw [packComponents, hsign]
  refine BitVec.eq_of_getLsbD_eq fun i hi => ?_
  unfold unpackSign unpackExponent unpackMantissa
  simp only [BitVec.getLsbD_append, BitVec.getLsbD_cast, BitVec.getLsbD_extractLsb]
  simp at hi ⊢
  grind

/-- The mantissa and the exponent of a finite number of the pattern `b`: a number of the least
exponent has no leading one. -/
def IsFinite (b : BitVec Format.binary64.numBits) (m : Nat) (e : Int) : Prop :=
  unpackExponent b = 0#_ ∧ m = (unpackMantissa b).toNat ∧ e = -1074 ∨
    unpackExponent b ≠ 0#_ ∧ m = 2 ^ 52 + (unpackMantissa b).toNat ∧
      e = (unpackExponent b).toNat - 1075

theorem unpack_cases (b : BitVec Format.binary64.numBits) :
    UnpackedFloat.unpack Format.binary64 b = .notANumber ∨
    (∃ s, UnpackedFloat.unpack Format.binary64 b = .infinity s ∧ b = packedInfinity _ s) ∨
    (∃ s, UnpackedFloat.unpack Format.binary64 b = .zero s ∧ b = packedZero _ s) ∨
    ∃ m e h, UnpackedFloat.unpack Format.binary64 b =
      .finite (Sign.ofBitVec (unpackSign b)) m e h ∧ IsFinite b m e := by
  have hb := packComponents_fields b
  unfold UnpackedFloat.unpack
  dsimp only
  by_cases hones : unpackExponent b = -1#_
  · rw [if_pos hones]
    rw [hones] at hb
    by_cases hmantissa : unpackMantissa b = 0#_
    · rw [if_pos hmantissa]
      rw [hmantissa] at hb
      exact .inr (.inl ⟨_, rfl, hb.symm⟩)
    · rw [if_neg hmantissa]
      exact .inl rfl
  rw [if_neg hones]
  by_cases hexponent : unpackExponent b = 0#_
  · rw [if_pos hexponent]
    by_cases hmantissa : unpackMantissa b = 0#_
    · rw [dif_pos hmantissa]
      rw [hexponent, hmantissa] at hb
      exact .inr (.inr (.inl ⟨_, rfl, hb.symm⟩))
    · rw [dif_neg hmantissa]
      have hpos : 0 < (unpackMantissa b).toNat :=
        Nat.pos_of_ne_zero fun h => hmantissa (BitVec.toNat_inj.1 h)
      refine .inr (.inr (.inr ⟨_, _, hpos, rfl, .inl ⟨hexponent, rfl, ?_⟩⟩))
      rw [hexponent]
      rfl
  · rw [if_neg hexponent]
    have happend : (1#1 ++ unpackMantissa b).toNat = 2 ^ 52 + (unpackMantissa b).toNat := by
      rw [BitVec.toNat_append, ← Nat.shiftLeft_add_eq_or_of_lt (unpackMantissa b).isLt]
      rfl
    have hpos : 0 < (1#1 ++ unpackMantissa b).toNat := by omega
    exact .inr (.inr (.inr ⟨_, _, hpos, rfl, .inr ⟨hexponent, happend, rfl⟩⟩))

/-- The fields of a finite number are determined by what the number is. -/
theorem IsFinite.fields_eq {a b : BitVec Format.binary64.numBits} {m : Nat} {e : Int}
    (ha : IsFinite a m e) (hb : IsFinite b m e) :
    unpackExponent a = unpackExponent b ∧ unpackMantissa a = unpackMantissa b := by
  have hma := (unpackMantissa a).isLt
  have hmb := (unpackMantissa b).isLt
  rw [← BitVec.toNat_inj, ← BitVec.toNat_inj]
  rcases ha with ⟨hea, ha, hea'⟩ | ⟨hea, ha, hea'⟩ <;>
    rcases hb with ⟨heb, hb, heb'⟩ | ⟨heb, hb, heb'⟩
  · rw [hea, heb, ← ha, ← hb]
    exact ⟨rfl, rfl⟩
  · simp at hma hmb; omega
  · simp at hma hmb; omega
  · omega

/-- Numbers are equal only if they are the same, or both zero. -/
theorem eq_or_zeros_of_compare {u v : UnpackedFloat} (h : u.compare v = some .eq) :
    u = v ∧ u ≠ .notANumber ∨ (∃ s, u = .zero s) ∧ ∃ t, v = .zero t := by
  have hfields : ∀ {e f : Int} {m n : Nat}, (compare e f).then (compare m n) = .eq →
      e = f ∧ m = n := by
    intro e f m n h
    obtain ⟨hexponent, hmantissa⟩ := Ordering.then_eq_eq.1 h
    exact ⟨Std.LawfulEqCmp.eq_of_compare hexponent, Std.LawfulEqCmp.eq_of_compare hmantissa⟩
  -- The signs decide all comparisons but those of two zeros and of finite numbers of one sign.
  rcases u with (_ | _) | _ | s | ⟨_ | _, m, e, hm⟩ <;>
    rcases v with (_ | _) | _ | t | ⟨_ | _, n, f, hn⟩ <;> try cases h
  · exact .inl ⟨rfl, nofun⟩
  · exact .inl ⟨rfl, nofun⟩
  · exact .inr ⟨⟨s, rfl⟩, t, rfl⟩
  · obtain ⟨rfl, rfl⟩ := hfields (Ordering.swap_eq_eq.1 (Option.some.inj h))
    exact .inl ⟨rfl, nofun⟩
  · obtain ⟨rfl, rfl⟩ := hfields (Option.some.inj h)
    exact .inl ⟨rfl, nofun⟩

/-- Patterns that are equal as numbers are the same, or both stand for zero. -/
theorem bits_eq_or_zeros {a b : BitVec Format.binary64.numBits}
    (h : (UnpackedFloat.unpack Format.binary64 a).compare
      (UnpackedFloat.unpack Format.binary64 b) = some .eq) :
    a = b ∨ (∃ s, a = packedZero _ s) ∧ ∃ t, b = packedZero _ t := by
  rcases eq_or_zeros_of_compare h with ⟨heq, hne⟩ | ⟨⟨s, hs⟩, t, ht⟩
  · left
    rcases unpack_cases a with ha | ⟨s, ha, rfl⟩ | ⟨s, ha, rfl⟩ | ⟨m, e, hm, ha, hfa⟩ <;>
      rcases unpack_cases b with hb | ⟨t, hb, rfl⟩ | ⟨t, hb, rfl⟩ | ⟨n, f, hn, hb, hfb⟩ <;>
      rw [ha, hb] at heq <;> try (injection heq; done)
    · exact absurd ha hne
    · rw [UnpackedFloat.infinity.inj heq]
    · rw [UnpackedFloat.zero.inj heq]
    · obtain ⟨hsign, rfl, rfl⟩ := UnpackedFloat.finite.inj heq
      obtain ⟨hexponent, hmantissa⟩ := hfa.fields_eq hfb
      rw [← packComponents_fields a, ← packComponents_fields b, hsign, hexponent, hmantissa]
  · right
    rcases unpack_cases a with ha | ⟨s, ha, hsa⟩ | ⟨s, ha, hsa⟩ | ⟨m, e, hm, ha, hfa⟩ <;>
      rw [ha] at hs <;> try (injection hs; done)
    rcases unpack_cases b with hb | ⟨t, hb, htb⟩ | ⟨t, hb, htb⟩ | ⟨n, f, hn, hb, hfb⟩ <;>
      rw [hb] at ht <;> try (injection ht; done)
    exact ⟨⟨_, hsa⟩, _, htb⟩

/-! ## Numbers -/

theorem eq_of_toBits {x y : Float} (h : x.toBits = y.toBits) : x = y := by
  obtain ⟨⟨a, ha⟩⟩ := x
  obtain ⟨⟨b, hb⟩⟩ := y
  obtain rfl : a = b := h
  rfl

/-- A number of a pattern of zero is zero, with one sign or the other. -/
theorem eq_zero_of_toBits {x : Float} {s : Sign}
    (h : x.toBits.toBitVec = packedZero Format.binary64 s) :
    x = 0.0 ∨ x = -0.0 := by
  cases s
  · right
    exact eq_of_toBits (UInt64.toBitVec_inj.1 (h.trans (by decide)))
  · left
    exact eq_of_toBits (UInt64.toBitVec_inj.1 (h.trans (by decide)))

/-- **Numbers that are equal are the same, or the two zeros.** -/
theorem eq_or_oppositeZeros_of_beq {x y : Float} (h : (x == y) = true) :
    x = y ∨ OppositeZeros x y := by
  have hcompare : x.toModel.unpack.compare y.toModel.unpack = some .eq := beq_iff_eq.1 h
  rcases bits_eq_or_zeros hcompare with hbits | ⟨⟨s, hs⟩, t, ht⟩
  · exact .inl (eq_of_toBits (UInt64.toBitVec_inj.1 hbits))
  · rcases eq_zero_of_toBits hs with rfl | rfl <;> rcases eq_zero_of_toBits ht with rfl | rfl
    · exact .inl rfl
    · exact .inr (.inl ⟨rfl, rfl⟩)
    · exact .inr (.inr ⟨rfl, rfl⟩)
    · exact .inl rfl

end UtilitySheet.Weight

