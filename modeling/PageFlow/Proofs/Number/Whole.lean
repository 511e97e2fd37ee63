import Mathlib.Algebra.Group.Nat.Defs
import PageFlow.Number.Double

namespace PageFlow

theorem le_roundHalfEven (num den : Nat) : num / den ≤ roundHalfEven num den := by
  unfold roundHalfEven
  dsimp only
  split
  · exact Nat.le_refl _
  · exact Nat.le_succ _

theorem roundHalfEven_le (num den : Nat) : roundHalfEven num den ≤ num / den + 1 := by
  unfold roundHalfEven
  dsimp only
  split
  · exact Nat.le_succ _
  · exact Nat.le_refl _

theorem roundHalfEven_shiftLeft (n k : Nat) : roundHalfEven (n <<< k) (1 <<< k) = n := by
  have hpos : 0 < 2 ^ k := Nat.two_pow_pos k
  rw [Nat.shiftLeft_eq, Nat.one_shiftLeft]
  unfold roundHalfEven
  rw [Nat.mul_mod_left, Nat.mul_div_cancel n hpos]
  exact if_pos (.inl hpos)

namespace Magnitude

theorem shiftLeft_mod (n k : Nat) : n <<< k % 1 <<< k = 0 := by
  rw [Nat.shiftLeft_eq, Nat.one_shiftLeft, Nat.mul_mod_left]

theorem shiftLeft_mono {m n j k : Nat} (h : m ≤ n) (hk : j ≤ k) : m <<< j ≤ n <<< k := by
  rw [Nat.shiftLeft_eq, Nat.shiftLeft_eq]
  exact Nat.mul_le_mul h (Nat.pow_le_pow_right Nat.two_pos hk)

theorem shiftRight_mono {m n : Nat} (h : m ≤ n) (k : Nat) : m >>> k ≤ n >>> k := by
  rw [Nat.shiftRight_eq_div_pow, Nat.shiftRight_eq_div_pow]
  exact Nat.div_le_div_right h

theorem shiftLeft_ne_zero {n : Nat} (h : n ≠ 0) (k : Nat) : n <<< k ≠ 0 := by
  rw [Nat.shiftLeft_eq]
  exact Nat.mul_ne_zero h (Nat.ne_of_gt (Nat.two_pow_pos k))

theorem log2_shiftLeft {n : Nat} (h : n ≠ 0) (k : Nat) : (n <<< k).log2 = n.log2 + k := by
  induction k with
  | zero => rfl
  | succ k ih =>
    rw [Nat.shiftLeft_succ, Nat.log2_two_mul (shiftLeft_ne_zero h k), ih]
    rfl

theorem unitsOfRank_block {fraction : Nat} (h : fraction < 2 ^ 52) (block : Nat) :
    unitsOfRank (((block + 1) <<< 52) + fraction) = (fraction + 2 ^ 52) <<< block := by
  have hrank : ((block + 1) <<< 52) + fraction = fraction + 2 ^ 52 * (block + 1) := by
    rw [Nat.shiftLeft_eq, Nat.mul_comm, Nat.add_comm]
  have hblock : (fraction + 2 ^ 52 * (block + 1)) >>> 52 = block + 1 := by
    rw [Nat.shiftRight_eq_div_pow, Nat.add_mul_div_left _ _ (Nat.two_pow_pos 52),
      Nat.div_eq_of_lt h, Nat.zero_add]
  have hfraction : (fraction + 2 ^ 52 * (block + 1)) % (1 <<< 52) = fraction := by
    rw [Nat.one_shiftLeft, Nat.add_mul_mod_self_left, Nat.mod_eq_of_lt h]
  rw [unitsOfRank, hrank, hblock, hfraction]
  rfl

/-- A significand of 53 bits counts the spacing of its block. -/
theorem unitsOfRank_normal {significand : Nat} (hlow : 2 ^ 52 ≤ significand)
    (hhigh : significand ≤ 2 ^ 53) (block : Nat) :
    unitsOfRank ((block <<< 52) + significand) = significand <<< block := by
  obtain ⟨fraction, rfl⟩ := Nat.exists_eq_add_of_le hlow
  rcases Nat.lt_or_ge fraction (2 ^ 52) with hlt | hge
  · have hrank : (block <<< 52) + (2 ^ 52 + fraction) = ((block + 1) <<< 52) + fraction := by
      rw [Nat.shiftLeft_eq, Nat.shiftLeft_eq]
      omega
    rw [hrank, unitsOfRank_block hlt, Nat.add_comm]
  · -- The first rank of the next block, where the spacing is twice as large.
    obtain rfl : fraction = 2 ^ 52 := by omega
    have hrank : (block <<< 52) + (2 ^ 52 + 2 ^ 52) = ((block + 1 + 1) <<< 52) + 0 := by
      rw [Nat.shiftLeft_eq, Nat.shiftLeft_eq]
      omega
    rw [hrank, unitsOfRank_block (Nat.two_pow_pos 52), Nat.shiftLeft_succ]
    rw [Nat.shiftLeft_eq, Nat.shiftLeft_eq]
    omega

/-- The block and the significand to which a whole number is rounded. -/
def blockOf (n : Nat) : Nat :=
  n.log2 + 1022

def significandOf (n : Nat) : Nat :=
  roundHalfEven (n <<< 1074) (1 <<< blockOf n)

section

variable {n : Nat} (hn : n ≠ 0)
include hn

theorem le_significandOf : 2 ^ 52 ≤ significandOf n := by
  apply Nat.le_trans _ (le_roundHalfEven _ _)
  have hlog := Nat.log2_self_le (shiftLeft_ne_zero hn 1074)
  rw [log2_shiftLeft hn] at hlog
  rw [Nat.one_shiftLeft, Nat.le_div_iff_mul_le (Nat.two_pow_pos _), ← Nat.pow_add, blockOf]
  apply Nat.le_trans _ hlog
  apply Nat.pow_le_pow_right Nat.two_pos
  omega

theorem significandOf_le : significandOf n ≤ 2 ^ 53 := by
  apply Nat.le_trans (roundHalfEven_le _ _)
  have hlog : n <<< 1074 < 2 ^ ((n <<< 1074).log2 + 1) := Nat.lt_log2_self
  rw [log2_shiftLeft hn] at hlog
  rw [Nat.one_shiftLeft, Nat.succ_le_iff, Nat.div_lt_iff_lt_mul (Nat.two_pow_pos _),
    ← Nat.pow_add, blockOf]
  apply Nat.lt_of_lt_of_le hlog
  apply Nat.pow_le_pow_right Nat.two_pos
  omega

end

theorem log2_le_of_lt {n : Nat} (h : n < 2 ^ 64) : n.log2 ≤ 63 := by
  rcases Nat.eq_zero_or_pos n with rfl | hpos
  · decide
  · exact Nat.le_of_lt_succ ((Nat.log2_lt (Nat.ne_of_gt hpos)).2 h)

variable {n : Nat}

theorem rank_ofNat (hn : n ≠ 0) (h : n < 2 ^ 64) :
    (ofNat n).rank = (blockOf n <<< 52) + significandOf n := by
  have hblock : ((n <<< 1074) / 1).log2 - 52 = blockOf n := by
    rw [Nat.div_one, log2_shiftLeft hn]
    rfl
  have hrank : (blockOf n <<< 52) + significandOf n ≤ 2047 <<< 52 := by
    have hlog := log2_le_of_lt h
    have hsignificand := significandOf_le hn
    rw [Nat.shiftLeft_eq, blockOf]
    omega
  rw [ofNat, ofQuotient, hblock]
  change (ofRank ((blockOf n <<< 52) + significandOf n)).rank = _
  rw [ofRank, dif_pos hrank]

theorem isFinite_ofNat (h : n < 2 ^ 64) : (ofNat n).isFinite := by
  rcases Nat.eq_zero_or_pos n with rfl | hpos
  · decide
  · have hn := Nat.ne_of_gt hpos
    have hlog := log2_le_of_lt h
    have hsignificand := significandOf_le hn
    rw [isFinite, rank_ofNat hn h, Nat.shiftLeft_eq, blockOf, decide_eq_true_iff]
    omega

theorem units_ofNat (hn : n ≠ 0) (h : n < 2 ^ 64) :
    (ofNat n).units = significandOf n <<< blockOf n := by
  rw [units, rank_ofNat hn h]
  exact unitsOfRank_normal (le_significandOf hn) (significandOf_le hn) _

theorem units_ofNat_of_lt (h : n < 2 ^ 53) : (ofNat n).units = n <<< 1074 := by
  rcases Nat.eq_zero_or_pos n with rfl | hpos
  · decide
  · have hn := Nat.ne_of_gt hpos
    have hlog : n.log2 < 53 := (Nat.log2_lt hn).2 h
    -- The spacing of the block divides the number.
    obtain ⟨k, hk⟩ : ∃ k, 1074 = k + blockOf n := ⟨1074 - blockOf n, by rw [blockOf]; omega⟩
    have hexact : n <<< 1074 = n <<< k <<< blockOf n := by rw [hk, Nat.shiftLeft_add]
    have hsignificand : significandOf n = n <<< k := by
      rw [significandOf, hexact, roundHalfEven_shiftLeft]
    rw [units_ofNat hn (by omega), hsignificand, hexact]

theorem le_units_ofNat (hlow : 2 ^ 53 ≤ n) (h : n < 2 ^ 64) :
    (2 ^ 53) <<< 1074 ≤ (ofNat n).units := by
  have hn : n ≠ 0 := by omega
  have hlog : 53 ≤ n.log2 := (Nat.le_log2 hn).2 hlow
  rw [units_ofNat hn h, Nat.pow_succ, Nat.mul_comm, ← Nat.shiftLeft_succ_inside]
  apply shiftLeft_mono (le_significandOf hn)
  rw [blockOf]
  omega

end Magnitude

namespace Double

variable {n : Int}

/-- Integers of up to 53 bits come back from binary64. -/
theorem toInt?_ofInt (h : n.natAbs < 2 ^ 53) : (ofInt n).toInt? = some n := by
  have hunits := Magnitude.units_ofNat_of_lt h
  have hfinite : (Magnitude.ofNat n.natAbs).isFinite := Magnitude.isFinite_ofNat (by omega)
  simp only [ofInt, toInt?, hunits, Magnitude.shiftLeft_mod, ↓reduceIte, truncate?, hfinite,
    Nat.shiftLeft_shiftRight, Option.some.injEq, decide_eq_true_eq]
  split <;> omega

theorem le_natAbs_toInt?_ofInt (hlow : 2 ^ 53 ≤ n.natAbs) (h : n.natAbs < 2 ^ 64) {m : Int}
    (hm : (ofInt n).toInt? = some m) : 2 ^ 53 ≤ m.natAbs := by
  have hunits := Magnitude.le_units_ofNat hlow h
  have hwhole : 2 ^ 53 ≤ (Magnitude.ofNat n.natAbs).units >>> 1074 := by
    rw [← Nat.shiftLeft_shiftRight (2 ^ 53) 1074]
    exact Magnitude.shiftRight_mono hunits 1074
  simp only [ofInt, toInt?, truncate?, Magnitude.isFinite_ofNat h, ↓reduceIte] at hm
  split at hm
  · obtain rfl := Option.some.inj hm
    split <;> omega
  · cases hm

theorem isFinite_ofInt (h : n.natAbs < 2 ^ 64) : (ofInt n).isFinite :=
  Magnitude.isFinite_ofNat h

end Double

end PageFlow
