import Xv6Net.Net.Send
import Xv6Net.Lib.OnesComplement

/-!
# `in_cksum`

`in_cksum` adds the buffer as little-endian 16-bit words (a trailing odd byte
padded with zero) in a 32-bit accumulator, folds the accumulator twice and
complements it.  While the accumulator does not wrap (at most 131072 bytes,
65536 words of at most 0xFFFF), the result is the complement of the ones'
complement sum of the words (`inCksum_eq`).

The IPv4 header `sys_send` builds is summed with `ip_sum = 0` and the result
stored without `htons`.  Read as the ten big-endian words of RFC 791, the
header then sums to 0xFFFF (`udpHeaders_ipChecksum`): reading big-endian swaps
the bytes of every word, and the ones' complement sum commutes with that swap.
-/

namespace Xv6Net
namespace Net

open Lib

/-- The little-endian 16-bit words `in_cksum` adds, `n` bytes from offset
`o`; a trailing odd byte is the low byte of a word whose high byte is zero. -/
def leWords (b : Bytes) : Nat → Nat → List Nat
  | o, n + 2 => (ld16 b o).toNat :: leWords b (o + 2) n
  | o, 1 => [(b o).toNat]
  | _, 0 => []

/-- The big-endian 16-bit words of RFC 791, `n` bytes from offset `o`. -/
def beWords (b : Bytes) : Nat → Nat → List Nat
  | o, n + 2 => ((b o).toNat * 256 + (b (o + 1)).toNat) :: beWords b (o + 2) n
  | o, 1 => [(b o).toNat * 256]
  | _, 0 => []

theorem leWords_lt (b : Bytes) (o n : Nat) : ∀ w ∈ leWords b o n, w < 65536 := by
  induction n using Nat.strongRecOn generalizing o with
  | _ n ih =>
      match n with
      | 0 => simp [leWords]
      | 1 => simpa [leWords] using (b o).toNat_lt.trans (by decide)
      | n + 2 =>
          intro w hw
          simp only [leWords, List.mem_cons] at hw
          rcases hw with rfl | hw
          · exact (ld16 b o).toNat_lt
          · exact ih n (by omega) (o + 2) w hw

theorem beWords_eq_map_swap16 (b : Bytes) (o n : Nat) :
    beWords b o n = (leWords b o n).map swap16 := by
  induction n using Nat.strongRecOn generalizing o with
  | _ n ih =>
      match n with
      | 0 => simp [beWords, leWords]
      | 1 =>
          have := (b o).toNat_lt
          simp only [beWords, leWords, List.map_cons, List.map_nil, swap16, List.cons.injEq,
            and_true]
          omega
      | n + 2 =>
          have h0 := (b o).toNat_lt
          have h1 := (b (o + 1)).toNat_lt
          simp only [beWords, leWords, List.map_cons, ih n (by omega), ld16_toNat, swap16,
            List.cons.injEq, and_true]
          omega

theorem leWords_sum_le (b : Bytes) (o n : Nat) : (leWords b o n).sum ≤ 65535 * ((n + 1) / 2) := by
  induction n using Nat.strongRecOn generalizing o with
  | _ n ih =>
      match n with
      | 0 => simp [leWords]
      | 1 =>
          have := (b o).toNat_lt
          simp only [leWords, List.sum_cons, List.sum_nil]
          omega
      | n + 2 =>
          have hw := (ld16 b o).toNat_lt
          have := ih n (by omega) (o + 2)
          simp only [leWords, List.sum_cons]
          omega

/-- The words of a buffer depend only on its bytes. -/
theorem leWords_congr {b b' : Bytes} {o n : Nat} (h : ∀ i, o ≤ i → i < o + n → b' i = b i) :
    leWords b' o n = leWords b o n := by
  induction n using Nat.strongRecOn generalizing o with
  | _ n ih =>
      match n with
      | 0 => simp [leWords]
      | 1 => simp [leWords, h o le_rfl (by omega)]
      | n + 2 =>
          simp only [leWords, ld16_congr fun i h₁ h₂ => h i h₁ (by omega)]
          congr 1
          exact ih n (by omega) fun i h₁ h₂ => h i (by omega) (by omega)

/-- Splitting a buffer at an even offset splits its words. -/
theorem leWords_append (b : Bytes) (o m n : Nat) :
    leWords b o (2 * m + n) = leWords b o (2 * m) ++ leWords b (o + 2 * m) n := by
  induction m generalizing o with
  | zero => simp [leWords]
  | succ m ih =>
      rw [show 2 * (m + 1) + n = (2 * m + n) + 2 by omega, show 2 * (m + 1) = 2 * m + 2 by omega,
        leWords, leWords, ih (o + 2), show o + 2 + 2 * m = o + (2 * m + 2) by omega]
      rfl

/-- The accumulation loop, while the accumulator does not wrap. -/
theorem cksumSum_toNat (b : Bytes) (o n : Nat) (acc : UInt32)
    (h : acc.toNat + (leWords b o n).sum < 2 ^ 32) :
    (cksumSum b o n acc).toNat = acc.toNat + (leWords b o n).sum := by
  induction n using Nat.strongRecOn generalizing o acc with
  | _ n ih =>
      match n with
      | 0 => simp [cksumSum, leWords]
      | 1 =>
          simp only [leWords, List.sum_cons, List.sum_nil, Nat.add_zero] at h
          simp only [cksumSum, UInt32.toNat_add, UInt8.toNat_toUInt32, leWords, List.sum_cons,
            List.sum_nil, Nat.add_zero]
          omega
      | n + 2 =>
          simp only [leWords, List.sum_cons] at h
          have hstep : (acc + (ld16 b o).toUInt32).toNat = acc.toNat + (ld16 b o).toNat := by
            simp only [UInt32.toNat_add, UInt16.toNat_toUInt32]
            omega
          simp only [cksumSum, leWords, List.sum_cons]
          rw [ih n (by omega) (o + 2) _ (by omega), hstep]
          omega

/-- `in_cksum` is the complement of the ones' complement sum of the words,
when their plain sum fits the accumulator. -/
theorem inCksum_eq {b : Bytes} {o len : Nat} (h : (leWords b o len).sum < 2 ^ 32) :
    inCksum b o len = ~~~(UInt16.ofNat (onesSum (leWords b o len))) := by
  have hsum := cksumSum_toNat b o len 0 (by simpa using h)
  simp only [UInt32.toNat_zero, Nat.zero_add] at hsum
  have hrep := fold_eq_onesRep h
  have hle := onesRep_le (leWords b o len).sum
  rw [onesSum_eq (leWords_lt b o len)]
  apply UInt16.toNat_inj.mp
  simp only [inCksum, UInt32.toNat_toUInt16, UInt32.toNat_not, UInt16.toNat_not,
    UInt32.toNat_add, UInt32.toNat_and, UInt32.toNat_shiftRight, UInt32.reduceToNat,
    Nat.reduceMod, UInt16.toNat_ofNat', hsum]
  have hand : (leWords b o len).sum &&& 65535 = (leWords b o len).sum % 65536 :=
    Nat.and_two_pow_sub_one_eq_mod _ 16
  rw [hand, Nat.shiftRight_eq_div_pow, Nat.shiftRight_eq_div_pow]
  generalize (leWords b o len).sum = S at *
  have hs1 : S % 65536 + S / 65536 < 2 ^ 32 := by omega
  have hs2 : S % 65536 + S / 65536 + (S % 65536 + S / 65536) / 2 ^ 16 < 2 ^ 32 := by omega
  rw [Nat.mod_eq_of_lt hs1, Nat.mod_eq_of_lt hs2]
  simp only [UInt32.size, UInt16.size, Nat.reducePow] at hrep ⊢
  omega

theorem inCksum_toNat {b : Bytes} {o len : Nat} (h : (leWords b o len).sum < 2 ^ 32) :
    (inCksum b o len).toNat = 65535 - onesSum (leWords b o len) := by
  have hle : onesSum (leWords b o len) ≤ 65535 := by
    rw [onesSum_eq (leWords_lt b o len)]
    exact onesRep_le _
  rw [inCksum_eq h, UInt16.toNat_not, UInt16.toNat_ofNat']
  simp only [UInt16.size, Nat.reducePow]
  omega

/-- The header bytes of `sys_send` are those of a page `P` whose `ip_sum`
bytes are zero, with `in_cksum` of its 20 header bytes stored at `ip_sum`;
the UDP header stored after the checksum lies beyond byte 33. -/
theorem udpHeaders_split (sport dst dport len : Int) :
    ∃ P : Bytes, P 24 = 0 ∧ P 25 = 0 ∧
      ∀ i, 14 ≤ i → i < 34 → udpHeaders sport dst dport len i = st16 P 24 (inCksum P 14 20) i := by
  simp only [udpHeaders]
  apply Exists.intro
  refine ⟨?_, ?_, fun i h₁ h₂ => ?_⟩
  rotate_left 2
  · rw [st16_of_ne _ (by omega) (by omega), st16_of_ne _ (by omega) (by omega),
      st16_of_ne _ (by omega) (by omega)]
    rfl
  · simp [st16_of_ne, st32_of_disjoint, stBytes_of_ge, localMac, hostMac, memsetPage]
  · simp [st16_of_ne, st32_of_disjoint, stBytes_of_ge, localMac, hostMac, memsetPage]

/-- The words of the header after the checksum store: the `ip_sum` word is
the checksum, the other nine are unchanged. -/
theorem leWords_st16_ipSum (P : Bytes) (v : UInt16) :
    leWords (st16 P 24 v) 14 20 = leWords P 14 10 ++ v.toNat :: leWords P 26 8 := by
  have hpre : leWords (st16 P 24 v) 14 10 = leWords P 14 10 :=
    leWords_congr fun i _ _ => st16_of_ne v (by omega) (by omega)
  have hpost : leWords (st16 P 24 v) 26 8 = leWords P 26 8 :=
    leWords_congr fun i _ _ => st16_of_ne v (by omega) (by omega)
  rw [show (20 : Nat) = 2 * 5 + 10 by rfl, leWords_append, show 14 + 2 * 5 = 24 by rfl,
    show (10 : Nat) = 2 * 1 + 8 by rfl, leWords_append, show 24 + 2 * 1 = 26 by rfl, hpost,
    show 2 * 5 = 10 by rfl, hpre]
  simp [leWords, ld16_st16]

/-- RFC 791: the ten big-endian words of the IPv4 header `sys_send` builds,
checksum included, have the ones' complement sum 0xFFFF. -/
theorem udpHeaders_ipChecksum (sport dst dport len : Int) :
    onesSum (beWords (udpHeaders sport dst dport len) 14 20) = 0xFFFF := by
  obtain ⟨P, h24, h25, hagree⟩ := udpHeaders_split sport dst dport len
  have hzero : leWords P 14 20 = leWords P 14 10 ++ 0 :: leWords P 26 8 := by
    have hsame : leWords (st16 P 24 0) 14 20 = leWords P 14 20 := leWords_congr fun i _ _ => by
      by_cases hi : i = 24
      · subst hi
        simp [h24]
      · by_cases hi' : i = 25
        · subst hi'
          simp [h25]
        · exact st16_of_ne 0 hi hi'
    rw [← hsame, leWords_st16_ipSum]
    rfl
  have hS : (leWords P 14 20).sum < 2 ^ 32 := by
    have := leWords_sum_le P 14 20
    omega
  have hc := inCksum_toNat hS
  rw [onesSum_eq (leWords_lt P 14 20)] at hc
  have hsum : (leWords (udpHeaders sport dst dport len) 14 20).sum =
      (leWords P 14 20).sum + (65535 - onesRep (leWords P 14 20).sum) := by
    rw [leWords_congr fun i h₁ h₂ => hagree i h₁ h₂, leWords_st16_ipSum, hc, hzero]
    simp only [List.sum_append, List.sum_cons]
    omega
  have hlt : ∀ w ∈ (leWords (udpHeaders sport dst dport len) 14 20).map swap16, w < 65536 := by
    intro w hw
    obtain ⟨v, hv, rfl⟩ := List.mem_map.mp hw
    have := leWords_lt _ 14 20 v hv
    unfold swap16
    omega
  rw [beWords_eq_map_swap16, onesSum_eq hlt, onesRep_sum_swap16, hsum, onesRep_add_compl]
  rfl

/-- `in_cksum` over at most 131072 bytes is the complement of the ones'
complement sum of the buffer's little-endian words, and stored unswapped in
the header `sys_send` builds it satisfies the RFC 791 check. -/
theorem inCksum_correct (b : Bytes) (o len : Nat) (hlen : len ≤ 131072)
    (sport dst dport plen : Int) :
    inCksum b o len = ~~~(UInt16.ofNat (onesSum (leWords b o len))) ∧
      onesSum (beWords (udpHeaders sport dst dport plen) 14 20) = 0xFFFF := by
  have hsum := leWords_sum_le b o len
  exact ⟨inCksum_eq (by omega), udpHeaders_ipChecksum sport dst dport plen⟩

theorem inCksum_correct_hostMac :
    (6 : Nat) ≤ 131072 ∧
      inCksum (stBytes (memsetPage 0) 0 hostMac) 0 6 =
          ~~~(UInt16.ofNat (onesSum (leWords (stBytes (memsetPage 0) 0 hostMac) 0 6))) ∧
        onesSum (beWords (udpHeaders 2000 0x0A000202 25603 4) 14 20) = 0xFFFF :=
  ⟨by decide, inCksum_correct _ 0 6 (by decide) 2000 0x0A000202 25603 4⟩

end Net
end Xv6Net
