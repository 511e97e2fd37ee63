import Mathlib.Algebra.Group.Nat.Defs
import PageFlow.Backoff

namespace PageFlow.Backoff

/-- How often a pause is doubled by an attempt. The first has number 1, for which 0 stands too. -/
def doublings (attempt : Nat) : Nat :=
  min (attempt - 1) 31

def factor (attempt : Nat) : UInt32 :=
  1 <<< UInt32.ofNat (doublings attempt)

theorem toNat_factor {n : Nat} (h : n ≤ 31) :
    (1 <<< UInt32.ofNat n : UInt32).toNat = 2 ^ n := by
  decide +revert

theorem doublings_lt (attempt : Nat) : doublings attempt < 32 :=
  Nat.lt_succ_of_le (Nat.min_le_right _ _)

theorem doublings_mono {attempt later : Nat} (h : attempt ≤ later) :
    doublings attempt ≤ doublings later := by
  rw [doublings, doublings]
  omega

theorem toNat_factor_doublings (attempt : Nat) :
    (factor attempt).toNat = 2 ^ doublings attempt :=
  toNat_factor (Nat.min_le_right _ _)

inductive Product (cap exact : Nat) : Option Nat → Prop
  | fits : Product cap exact (some exact)
  | long (h : cap < exact) : Product cap exact none

theorem product_times? {b : Backoff} (hcap : b.cap < 2 ^ 64) (factor : UInt32) :
    Product b.cap (b.base * factor.toNat) (times? b.base factor) := by
  rw [times?]
  split
  · exact .fits
  · next hlong =>
    have hspan : (1 <<< 64) * 1000 ≤ b.base * factor.toNat := Nat.le_of_not_lt hlong
    exact .long (by omega)

theorem Product.min_eq {cap exact : Nat} {product : Option Nat} (h : Product cap exact product) :
    min (product.getD cap) cap = min exact cap := by
  cases h with
  | fits => rfl
  | long hlong => rw [Option.getD_none, Nat.min_self, Nat.min_eq_right (Nat.le_of_lt hlong)]

/-- Pauses double from one attempt to the next, up to a cap that is a span of time. -/
theorem delay_eq {b : Backoff} (hcap : b.cap < 2 ^ 64) (attempt : Nat) :
    b.delay attempt = min (b.base * 2 ^ min (attempt - 1) 31) b.cap := by
  have hproduct := product_times? hcap (factor attempt)
  rw [toNat_factor_doublings] at hproduct
  exact hproduct.min_eq

/-- A pause in exact numbers, for all that is computed of it in fewer bits. -/
structure Exact (b : Backoff) (attempt : Nat) : Prop where
  /-- The shift stays within 32 bits, and so does what is shifted. -/
  shift : doublings attempt < 32 ∧ (factor attempt).toNat = 2 ^ doublings attempt
  /-- The product is exact, or it is missing and would be cut to the cap. -/
  product : Product b.cap (b.base * 2 ^ doublings attempt) (times? b.base (factor attempt))
  computed : b.delay attempt = min ((times? b.base (factor attempt)).getD b.cap) b.cap
  exact : b.delay attempt = min (b.base * 2 ^ min (max attempt 1 - 1) 31) b.cap
  mono : ∀ later, attempt ≤ later → b.delay attempt ≤ b.delay later
  capped : b.delay attempt ≤ b.cap
  /-- The pause is doubled by each attempt, for as long as the cap leaves it any room. -/
  doubled : attempt ≤ 32 ∨ b.cap ≤ b.base * 2 ^ 31 →
    b.delay attempt = min (b.base * 2 ^ (attempt - 1)) b.cap

theorem delay_mono {b : Backoff} (hcap : b.cap < 2 ^ 64) {attempt later : Nat}
    (h : attempt ≤ later) : b.delay attempt ≤ b.delay later := by
  have hpower : b.base * 2 ^ doublings attempt ≤ b.base * 2 ^ doublings later :=
    Nat.mul_le_mul_left _ (Nat.pow_le_pow_right Nat.two_pos (doublings_mono h))
  rw [delay_eq hcap, delay_eq hcap]
  exact Nat.le_min.2 ⟨Nat.le_trans (Nat.min_le_left _ _) hpower, Nat.min_le_right _ _⟩

theorem delay_doubled {b : Backoff} (hcap : b.cap < 2 ^ 64) {attempt : Nat}
    (h : attempt ≤ 32 ∨ b.cap ≤ b.base * 2 ^ 31) :
    b.delay attempt = min (b.base * 2 ^ (attempt - 1)) b.cap := by
  rw [delay_eq hcap]
  rcases Nat.lt_or_ge 32 attempt with hlate | hearly
  · -- So late, the doublings that are made reach the cap, as all would that could be made.
    have hreached : b.cap ≤ b.base * 2 ^ 31 := h.resolve_left (Nat.not_le.2 hlate)
    have hpower : b.base * 2 ^ 31 ≤ b.base * 2 ^ (attempt - 1) :=
      Nat.mul_le_mul_left _ (Nat.pow_le_pow_right Nat.two_pos (by omega))
    rw [Nat.min_eq_right (show 31 ≤ attempt - 1 by omega), Nat.min_eq_right hreached,
      Nat.min_eq_right (Nat.le_trans hreached hpower)]
  · rw [Nat.min_eq_left (show attempt - 1 ≤ 31 by omega)]

/--
The pause after an attempt is the first pause, doubled for each attempt before that one and cut to
the cap. It is computed in 32 bits and in spans of time, and no overflow of these ever shows. The
32nd attempt is the last one that doubles it.
-/
theorem delay_exact {b : Backoff} (hcap : b.cap < 2 ^ 64) (attempt : Nat) : b.Exact attempt where
  shift := ⟨doublings_lt attempt, toNat_factor_doublings attempt⟩
  product := by
    rw [← toNat_factor_doublings]
    exact product_times? hcap _
  computed := rfl
  exact := by
    have hfirst : max attempt 1 - 1 = attempt - 1 := by omega
    rw [hfirst, delay_eq hcap]
  mono _ h := delay_mono hcap h
  capped := Nat.min_le_right _ _
  doubled := delay_doubled hcap

/-- The longest of pauses, which can not be doubled even once, and a late one of a short first. -/
theorem delay_exact_longest :
    let longest : Backoff := ⟨40, 2 ^ 64 - 1, 2 ^ 64 - 1⟩
    let short : Backoff := ⟨40, 1, 2 ^ 64 - 1⟩
    longest.cap < 2 ^ 64 ∧ times? longest.base (factor 32) = none ∧
      longest.delay 32 = 2 ^ 64 - 1 ∧ short.delay (2 ^ 32 - 1) = 2 ^ 31 := by
  intro longest short
  have hlongest := delay_exact (b := longest) (by decide) 32
  have hshort := delay_exact (b := short) (by decide) (2 ^ 32 - 1)
  exact ⟨by decide, by decide, hlongest.exact.trans (by decide), hshort.exact.trans (by decide)⟩

end PageFlow.Backoff
