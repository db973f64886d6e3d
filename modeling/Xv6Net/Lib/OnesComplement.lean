import Mathlib.Data.Nat.ModEq
import Mathlib.Algebra.BigOperators.Group.List.Basic

/-!
# Sixteen-bit ones' complement sums

The Internet checksum adds 16-bit words with end-around carry (`onesAdd`,
`onesSum`).  The value of such a sum depends only on the plain sum `S` of the
words: it is `0` for `S = 0`, and otherwise the number in `1 … 0xFFFF`
congruent to `S` modulo `0xFFFF` (`onesRep`, `onesSum_eq`).  Three facts about
`onesRep` carry the checksum proofs:

* folding a 32-bit sum twice, `s ↦ (s & 0xFFFF) + (s >> 16)`, gives
  `onesRep s` (`fold_eq_onesRep`);
* swapping the two bytes of every word swaps the bytes of the sum
  (`onesRep_sum_swap`), since a byte swap is multiplication by 256 modulo
  `0xFFFF`;
* adding the complement of the sum gives `0xFFFF` (`onesRep_add_compl`).
-/

namespace Xv6Net
namespace Lib

/-- Addition of two 16-bit words with end-around carry. -/
def onesAdd (a b : Nat) : Nat :=
  (a + b) % 65536 + (a + b) / 65536

/-- The ones' complement sum of a list of 16-bit words. -/
def onesSum (ws : List Nat) : Nat :=
  ws.foldl onesAdd 0

/-- The 16-bit ones' complement representative of a plain sum. -/
def onesRep (S : Nat) : Nat :=
  if S = 0 then 0 else (S - 1) % 65535 + 1

/-- The two bytes of a 16-bit word, swapped. -/
def swap16 (w : Nat) : Nat :=
  w % 256 * 256 + w / 256

theorem onesRep_le (S : Nat) : onesRep S ≤ 65535 := by
  unfold onesRep
  split_ifs <;> omega

/-- `onesRep S` is the only number in `0 … 0xFFFF` that is zero exactly when
`S` is and is congruent to `S` modulo `0xFFFF`. -/
theorem eq_onesRep {r S : Nat} (hr : r ≤ 65535) (hzero : r = 0 ↔ S = 0)
    (hmod : r ≡ S [MOD 65535]) : r = onesRep S := by
  unfold Nat.ModEq at hmod
  unfold onesRep
  split_ifs with hS
  · exact hzero.mpr hS
  · have hr0 : r ≠ 0 := fun h => hS (hzero.mp h)
    omega

theorem onesRep_modEq (S : Nat) : onesRep S ≡ S [MOD 65535] := by
  unfold Nat.ModEq onesRep
  split_ifs with hS
  · rw [hS]
  · omega

theorem onesRep_eq_zero {S : Nat} : onesRep S = 0 ↔ S = 0 := by
  unfold onesRep
  split_ifs with hS <;> simp [hS]

/-- One step of the end-around-carry sum. -/
theorem onesAdd_onesRep (A : Nat) {w : Nat} (hw : w < 65536) :
    onesAdd (onesRep A) w = onesRep (A + w) := by
  have hle := onesRep_le A
  have hmod := onesRep_modEq A
  have hz : onesRep A = 0 ↔ A = 0 := onesRep_eq_zero
  apply eq_onesRep
  · unfold onesAdd
    omega
  · unfold onesAdd
    omega
  · unfold Nat.ModEq onesAdd at *
    omega

theorem foldl_onesAdd (A : Nat) {ws : List Nat} (hws : ∀ w ∈ ws, w < 65536) :
    ws.foldl onesAdd (onesRep A) = onesRep (A + ws.sum) := by
  induction ws generalizing A with
  | nil => simp
  | cons w ws ih =>
      rw [List.foldl_cons, onesAdd_onesRep A (hws w (by simp)),
        ih (A + w) fun v hv => hws v (by simp [hv])]
      simp [Nat.add_assoc]

/-- The end-around-carry sum of words is the representative of their plain
sum. -/
theorem onesSum_eq {ws : List Nat} (hws : ∀ w ∈ ws, w < 65536) :
    onesSum ws = onesRep ws.sum := by
  have h := foldl_onesAdd 0 hws
  rwa [show onesRep 0 = 0 by rfl, Nat.zero_add] at h

/-- Adding the high half of a number to its low half keeps the
representative. -/
theorem onesRep_fold (x : Nat) : onesRep (x % 65536 + x / 65536) = onesRep x := by
  have hz : onesRep x = 0 ↔ x = 0 := onesRep_eq_zero
  have hm := onesRep_modEq x
  symm
  apply eq_onesRep (onesRep_le x)
  · omega
  · unfold Nat.ModEq at *
    omega

/-- Below `2 * 0xFFFF`, one end-around carry reaches the representative. -/
theorem carry_eq_onesRep {x : Nat} (hx : x ≤ 131070) :
    (x + x / 65536) % 65536 = onesRep x := by
  have hq : x / 65536 = 0 ∨ x / 65536 = 1 := by omega
  apply eq_onesRep
  · omega
  · rcases hq with hq | hq <;> rw [hq] <;> omega
  · unfold Nat.ModEq
    rcases hq with hq | hq <;> rw [hq] <;> omega

/-- The two-step fold of a 32-bit accumulator, as `in_cksum` computes it
before the complement. -/
theorem fold_eq_onesRep {S : Nat} (hS : S < 2 ^ 32) :
    (S % 65536 + S / 65536 + (S % 65536 + S / 65536) / 65536) % 65536 = onesRep S := by
  rw [carry_eq_onesRep (by omega), onesRep_fold]

theorem swap16_modEq (w : Nat) : swap16 w ≡ 256 * w [MOD 65535] := by
  unfold Nat.ModEq swap16
  omega

theorem sum_swap16_modEq (ws : List Nat) :
    (ws.map swap16).sum ≡ 256 * ws.sum [MOD 65535] := by
  induction ws with
  | nil => rfl
  | cons w ws ih =>
      simp only [List.map_cons, List.sum_cons, Nat.mul_add]
      exact (swap16_modEq w).add ih

theorem sum_swap16_eq_zero (ws : List Nat) : (ws.map swap16).sum = 0 ↔ ws.sum = 0 := by
  induction ws with
  | nil => simp
  | cons w ws ih =>
      simp only [List.map_cons, List.sum_cons, swap16]
      omega

/-- Summing byte-swapped words gives the byte-swapped sum. -/
theorem onesRep_sum_swap16 (ws : List Nat) :
    onesRep (ws.map swap16).sum = swap16 (onesRep ws.sum) := by
  have hle := onesRep_le ws.sum
  have hz : onesRep ws.sum = 0 ↔ ws.sum = 0 := onesRep_eq_zero
  symm
  apply eq_onesRep
  · unfold swap16
    omega
  · rw [sum_swap16_eq_zero]
    unfold swap16
    omega
  · calc swap16 (onesRep ws.sum) ≡ 256 * onesRep ws.sum [MOD 65535] := swap16_modEq _
      _ ≡ 256 * ws.sum [MOD 65535] := (onesRep_modEq _).mul_left 256
      _ ≡ (ws.map swap16).sum [MOD 65535] := (sum_swap16_modEq ws).symm

/-- A sum with its own complement added is `0xFFFF`. -/
theorem onesRep_add_compl (S : Nat) : onesRep (S + (65535 - onesRep S)) = 65535 := by
  have hle := onesRep_le S
  have hmod := onesRep_modEq S
  have hz : onesRep S = 0 ↔ S = 0 := onesRep_eq_zero
  symm
  apply eq_onesRep le_rfl
  · omega
  · unfold Nat.ModEq at *
    omega

end Lib
end Xv6Net
