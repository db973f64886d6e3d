import Mathlib.Data.Nat.Bitwise

/-!
# Kernel constants, byte order and raw page contents

Constants of `mmu.h`, `memlayout.h` and `net.h`, the byte-order helpers of
`net.h`, and the model of the bytes of a page.

**Pointers.**  A kernel pointer is a `Nat` (`Addr`); `0` is the null pointer.
Pages handed out by `kalloc` are identified by their kernel address.

**Bytes.**  The content of a page is a function `Bytes := Nat → UInt8`; only
the offsets below `PGSIZE` are meaningful.  A multi-byte field of a packed
header is loaded as x86 does, least significant byte first (`ld16`, `ld32`);
`ntohs`/`ntohl` are the byte swaps of `net.h`.

**Byte order and the packed fields.** Every field is read back through its value
as a natural number: a load is the sum of its bytes, a store puts the value's
bytes in place.

**A load sees only its own bytes, so it passes every store that does not.**
overlap them.
-/

namespace Xv6Net

/-- A kernel pointer; `0` is null. -/
abbrev Addr := Nat

/-- `PGSIZE`: bytes mapped by a page. -/
def PGSIZE : Nat := 4096

/-- `PHYSTOP`: top of physical memory. -/
def PHYSTOP : Nat := 0xE000000

/-- `KERNBASE`: first kernel virtual address. -/
def KERNBASE : Nat := 0xFFFF800000000000

/-- `sizeof(struct eth)`. -/
def sizeofEth : Nat := 14

/-- `sizeof(struct ip)`. -/
def sizeofIp : Nat := 20

/-- `sizeof(struct udp)`. -/
def sizeofUdp : Nat := 8

/-- `sizeof(struct arp)`. -/
def sizeofArp : Nat := 28

/-- `ETHTYPE_IP`. -/
def ETHTYPE_IP : UInt16 := 0x0800

/-- `ETHTYPE_ARP`. -/
def ETHTYPE_ARP : UInt16 := 0x0806

/-- `IPPROTO_UDP`. -/
def IPPROTO_UDP : UInt8 := 17

/-- `bswaps` (`htons`, `ntohs`) of `net.h`. -/
def bswaps (val : UInt16) : UInt16 :=
  ((val &&& 0x00ff) <<< 8) ||| ((val &&& 0xff00) >>> 8)

/-- `bswapl` (`htonl`, `ntohl`) of `net.h`. -/
def bswapl (val : UInt32) : UInt32 :=
  ((val &&& 0x000000ff) <<< 24) ||| ((val &&& 0x0000ff00) <<< 8) |||
    ((val &&& 0x00ff0000) >>> 8) ||| ((val &&& 0xff000000) >>> 24)

/-- `ntohs`. -/
def ntohs : UInt16 → UInt16 := bswaps

/-- `htons`. -/
def htons : UInt16 → UInt16 := bswaps

/-- `ntohl`. -/
def ntohl : UInt32 → UInt32 := bswapl

/-- `htonl`. -/
def htonl : UInt32 → UInt32 := bswapl

/-- Conversion of an integer to `int` (32-bit two's complement, as gcc
narrows). -/
def toInt32 (x : Int) : Int :=
  (x + 2 ^ 31) % 2 ^ 32 - 2 ^ 31

/-- Conversion of an integer to `uint64` (`size_t`, `addr_t`). -/
def toUInt64 (x : Int) : Nat :=
  (x % 2 ^ 64).toNat

/-- Conversion of an integer to `ushort`. -/
def toUShort (x : Int) : Nat :=
  (x % 2 ^ 16).toNat

/-- The cast `(ushort)x`. -/
def ushort (x : Int) : UInt16 :=
  UInt16.ofNat (toUShort x)

/-- `argint(n, &ip)`: the argument register narrowed to `int`. -/
def argint (r : UInt64) : Int :=
  toInt32 r.toNat

/-- `argaddr(n, &ip)`: the argument register as an address. -/
def argaddr (r : UInt64) : Nat :=
  r.toNat

theorem toInt32_of_range {x : Int} (h₁ : -2 ^ 31 ≤ x) (h₂ : x < 2 ^ 31) :
    toInt32 x = x := by
  unfold toInt32
  omega

theorem ushort_toNat_of_range {x : Int} (h₁ : 0 ≤ x) (h₂ : x ≤ 0xFFFF) :
    (ushort x).toNat = x.toNat := by
  simp only [ushort, toUShort, UInt16.toNat_ofNat']
  omega

/-- The bytes of a page, by offset. -/
abbrev Bytes := Nat → UInt8

/-- Load of a `ushort` at offset `o` (little-endian). -/
def ld16 (b : Bytes) (o : Nat) : UInt16 :=
  (b o).toUInt16 ||| ((b (o + 1)).toUInt16 <<< 8)

/-- Load of a `uint32` at offset `o` (little-endian). -/
def ld32 (b : Bytes) (o : Nat) : UInt32 :=
  (b o).toUInt32 ||| ((b (o + 1)).toUInt32 <<< 8) |||
    ((b (o + 2)).toUInt32 <<< 16) ||| ((b (o + 3)).toUInt32 <<< 24)

/-- `memmove(dst, src, n)` into a page: the first `n` bytes come from `src`. -/
def memmove (dst src : Bytes) (n : Nat) : Bytes :=
  fun i => if i < n then src i else dst i

/-- `memset(v, c, PGSIZE)`. -/
def memsetPage (c : UInt8) : Bytes :=
  fun _ => c

/-- Store of a `ushort` at offset `o` (little-endian). -/
def st16 (b : Bytes) (o : Nat) (v : UInt16) : Bytes :=
  fun i => if i = o then v.toUInt8 else if i = o + 1 then (v >>> 8).toUInt8 else b i

/-- Store of a `uint32` at offset `o` (little-endian). -/
def st32 (b : Bytes) (o : Nat) (v : UInt32) : Bytes :=
  fun i =>
    if i = o then v.toUInt8
    else if i = o + 1 then (v >>> 8).toUInt8
    else if i = o + 2 then (v >>> 16).toUInt8
    else if i = o + 3 then (v >>> 24).toUInt8
    else b i

/-- `memmove(b + o, src, src.length)`. -/
def stBytes (b : Bytes) (o : Nat) (src : List UInt8) : Bytes :=
  fun i => if o ≤ i ∧ i < o + src.length then src.getD (i - o) 0 else b i

/-- The bytes `b[o], …, b[o + n - 1]`. -/
def slice (b : Bytes) (o n : Nat) : List UInt8 :=
  (List.range n).map fun i => b (o + i)

/-- The little-endian bytes of a `uint32`. -/
def bytes32 (v : UInt32) : List UInt8 :=
  [v.toUInt8, (v >>> 8).toUInt8, (v >>> 16).toUInt8, (v >>> 24).toUInt8]

/-- The little-endian bytes of a `ushort`. -/
def bytes16 (v : UInt16) : List UInt8 :=
  [v.toUInt8, (v >>> 8).toUInt8]

@[simp] theorem memmove_lt {dst src : Bytes} {n i : Nat} (h : i < n) :
    memmove dst src n i = src i := by
  simp [memmove, h]

@[simp] theorem memmove_ge {dst src : Bytes} {n i : Nat} (h : n ≤ i) :
    memmove dst src n i = dst i := by
  simp [memmove, Nat.not_lt.mpr h]

/-- Or-ing in a shifted value above the bits of `x` adds it. -/
theorem or_shiftLeft_eq_add {x k : Nat} (y : Nat) (hx : x < 2 ^ k) :
    x ||| y <<< k = x + y * 2 ^ k := by
  rw [Nat.or_comm, ← Nat.shiftLeft_add_eq_or_of_lt hx, Nat.shiftLeft_eq]
  omega

theorem bswaps_toNat (v : UInt16) : (bswaps v).toNat = v.toNat % 256 * 256 + v.toNat / 256 := by
  have hv := v.toNat_lt
  have hlo : v.toNat &&& 255 = v.toNat % 256 := Nat.and_two_pow_sub_one_eq_mod v.toNat 8
  have hhi : (v.toNat &&& 65280) >>> 8 = v.toNat / 256 := by
    rw [Nat.shiftRight_and_distrib, show (65280 : Nat) >>> 8 = 2 ^ 8 - 1 by decide,
      Nat.and_two_pow_sub_one_eq_mod, Nat.shiftRight_eq_div_pow]
    omega
  have hmod : (v.toNat % 256) <<< 8 % 2 ^ 16 = (v.toNat % 256) <<< 8 :=
    Nat.mod_eq_of_lt (by rw [Nat.shiftLeft_eq]; omega)
  simp only [bswaps, UInt16.toNat_or, UInt16.toNat_shiftLeft, UInt16.toNat_shiftRight,
    UInt16.toNat_and, UInt16.reduceToNat, Nat.reduceMod]
  rw [hlo, hhi, hmod, Nat.or_comm, or_shiftLeft_eq_add _ (by omega)]
  omega

theorem bswaps_bswaps (v : UInt16) : bswaps (bswaps v) = v := by
  have hv := v.toNat_lt
  apply UInt16.toNat_inj.mp
  rw [bswaps_toNat, bswaps_toNat]
  omega

/-- `ntohs (htons v) = v`. -/
theorem ntohs_htons (v : UInt16) : ntohs (htons v) = v :=
  bswaps_bswaps v

theorem ld16_toNat (b : Bytes) (o : Nat) :
    (ld16 b o).toNat = (b o).toNat + (b (o + 1)).toNat * 2 ^ 8 := by
  have h0 := (b o).toNat_lt
  have h1 := (b (o + 1)).toNat_lt
  have hmod : (b (o + 1)).toNat <<< 8 % 2 ^ 16 = (b (o + 1)).toNat <<< 8 :=
    Nat.mod_eq_of_lt (by rw [Nat.shiftLeft_eq]; omega)
  simp only [ld16, UInt16.toNat_or, UInt16.toNat_shiftLeft, UInt8.toNat_toUInt16,
    UInt16.reduceToNat, Nat.reduceMod]
  rw [hmod, or_shiftLeft_eq_add _ h0]

theorem ld32_toNat (b : Bytes) (o : Nat) :
    (ld32 b o).toNat = (b o).toNat + (b (o + 1)).toNat * 2 ^ 8 + (b (o + 2)).toNat * 2 ^ 16 +
      (b (o + 3)).toNat * 2 ^ 24 := by
  have h0 := (b o).toNat_lt
  have h1 := (b (o + 1)).toNat_lt
  have h2 := (b (o + 2)).toNat_lt
  have h3 := (b (o + 3)).toNat_lt
  have hm1 : (b (o + 1)).toNat <<< 8 % 2 ^ 32 = (b (o + 1)).toNat <<< 8 :=
    Nat.mod_eq_of_lt (by rw [Nat.shiftLeft_eq]; omega)
  have hm2 : (b (o + 2)).toNat <<< 16 % 2 ^ 32 = (b (o + 2)).toNat <<< 16 :=
    Nat.mod_eq_of_lt (by rw [Nat.shiftLeft_eq]; omega)
  have hm3 : (b (o + 3)).toNat <<< 24 % 2 ^ 32 = (b (o + 3)).toNat <<< 24 :=
    Nat.mod_eq_of_lt (by rw [Nat.shiftLeft_eq]; omega)
  simp only [ld32, UInt32.toNat_or, UInt32.toNat_shiftLeft, UInt8.toNat_toUInt32,
    UInt32.reduceToNat, Nat.reduceMod]
  rw [hm1, hm2, hm3, or_shiftLeft_eq_add _ h0,
    or_shiftLeft_eq_add _ (show (b o).toNat + (b (o + 1)).toNat * 2 ^ 8 < 2 ^ 16 by omega),
    or_shiftLeft_eq_add _ (show (b o).toNat + (b (o + 1)).toNat * 2 ^ 8 +
      (b (o + 2)).toNat * 2 ^ 16 < 2 ^ 24 by omega)]

@[simp] theorem st16_self (b : Bytes) (o : Nat) (v : UInt16) : st16 b o v o = v.toUInt8 := by
  simp [st16]

@[simp] theorem st16_succ (b : Bytes) (o : Nat) (v : UInt16) :
    st16 b o v (o + 1) = (v >>> 8).toUInt8 := by
  simp [st16]

theorem st16_of_ne {b : Bytes} {o i : Nat} (v : UInt16) (h₀ : i ≠ o) (h₁ : i ≠ o + 1) :
    st16 b o v i = b i := by
  simp [st16, h₀, h₁]

theorem ld16_st16 (b : Bytes) (o : Nat) (v : UInt16) : ld16 (st16 b o v) o = v := by
  have hv := v.toNat_lt
  apply UInt16.toNat_inj.mp
  rw [ld16_toNat, st16_self, st16_succ]
  simp only [UInt16.toNat_toUInt8, UInt16.toNat_shiftRight, UInt16.reduceToNat, Nat.reduceMod,
    Nat.shiftRight_eq_div_pow]
  omega

theorem st32_of_disjoint {b : Bytes} {o i : Nat} (v : UInt32) (h : i < o ∨ o + 4 ≤ i) :
    st32 b o v i = b i := by
  simp [st32, show i ≠ o by omega, show i ≠ o + 1 by omega, show i ≠ o + 2 by omega,
    show i ≠ o + 3 by omega]

theorem ld32_st32 (b : Bytes) (o : Nat) (v : UInt32) : ld32 (st32 b o v) o = v := by
  have hv := v.toNat_lt
  apply UInt32.toNat_inj.mp
  rw [ld32_toNat]
  simp only [st32, if_true, show o + 1 ≠ o by omega, show o + 2 ≠ o by omega,
    show o + 2 ≠ o + 1 by omega, show o + 3 ≠ o by omega, show o + 3 ≠ o + 1 by omega,
    show o + 3 ≠ o + 2 by omega, if_false, UInt32.toNat_toUInt8, UInt32.toNat_shiftRight,
    UInt32.reduceToNat, Nat.reduceMod, Nat.shiftRight_eq_div_pow]
  omega

theorem stBytes_of_lt {b : Bytes} {o i : Nat} (src : List UInt8) (h : i < o) :
    stBytes b o src i = b i := by
  simp [stBytes, show ¬ o ≤ i by omega]

theorem stBytes_of_mem {b : Bytes} {o i : Nat} {src : List UInt8} (h₁ : o ≤ i)
    (h₂ : i < o + src.length) : stBytes b o src i = src.getD (i - o) 0 := by
  simp [stBytes, h₁, h₂]

theorem stBytes_of_ge {b : Bytes} {o i : Nat} (src : List UInt8) (h : o + src.length ≤ i) :
    stBytes b o src i = b i := by
  simp [stBytes, show ¬ i < o + src.length by omega]

theorem ld16_congr {b b' : Bytes} {o : Nat} (h : ∀ i, o ≤ i → i < o + 2 → b' i = b i) :
    ld16 b' o = ld16 b o := by
  simp [ld16, h o le_rfl (by omega), h (o + 1) (by omega) (by omega)]

theorem ld32_congr {b b' : Bytes} {o : Nat} (h : ∀ i, o ≤ i → i < o + 4 → b' i = b i) :
    ld32 b' o = ld32 b o := by
  simp [ld32, h o le_rfl (by omega), h (o + 1) (by omega) (by omega),
    h (o + 2) (by omega) (by omega), h (o + 3) (by omega) (by omega)]

@[simp] theorem ld16_st16_of_disjoint {b : Bytes} {o o' : Nat} (v : UInt16)
    (h : o' + 2 ≤ o ∨ o + 2 ≤ o') : ld16 (st16 b o v) o' = ld16 b o' :=
  ld16_congr fun _ _ _ => st16_of_ne v (by omega) (by omega)

@[simp] theorem ld16_st32_of_disjoint {b : Bytes} {o o' : Nat} (v : UInt32)
    (h : o' + 2 ≤ o ∨ o + 4 ≤ o') : ld16 (st32 b o v) o' = ld16 b o' :=
  ld16_congr fun _ _ _ => st32_of_disjoint v (by omega)

@[simp] theorem ld16_stBytes_of_disjoint {b : Bytes} {o o' : Nat} (src : List UInt8)
    (h : o' + 2 ≤ o ∨ o + src.length ≤ o') : ld16 (stBytes b o src) o' = ld16 b o' :=
  ld16_congr fun _ _ _ => by
    rcases h with h | h
    · exact stBytes_of_lt src (by omega)
    · exact stBytes_of_ge src (by omega)

@[simp] theorem ld32_st16_of_disjoint {b : Bytes} {o o' : Nat} (v : UInt16)
    (h : o' + 4 ≤ o ∨ o + 2 ≤ o') : ld32 (st16 b o v) o' = ld32 b o' :=
  ld32_congr fun _ _ _ => st16_of_ne v (by omega) (by omega)

@[simp] theorem ld32_st32_of_disjoint {b : Bytes} {o o' : Nat} (v : UInt32)
    (h : o' + 4 ≤ o ∨ o + 4 ≤ o') : ld32 (st32 b o v) o' = ld32 b o' :=
  ld32_congr fun _ _ _ => st32_of_disjoint v (by omega)

@[simp] theorem ld32_stBytes_of_disjoint {b : Bytes} {o o' : Nat} (src : List UInt8)
    (h : o' + 4 ≤ o ∨ o + src.length ≤ o') : ld32 (stBytes b o src) o' = ld32 b o' :=
  ld32_congr fun _ _ _ => by
    rcases h with h | h
    · exact stBytes_of_lt src (by omega)
    · exact stBytes_of_ge src (by omega)

theorem slice_congr {b b' : Bytes} {o n : Nat} (h : ∀ i, o ≤ i → i < o + n → b' i = b i) :
    slice b' o n = slice b o n := by
  simp only [slice, List.map_inj_left, List.mem_range]
  intro i hi
  exact h _ (by omega) (by omega)

/-- A shorter read is a prefix of a longer one. -/
theorem slice_take (b : Bytes) (o : Nat) {n m : Nat} (h : n ≤ m) :
    (slice b o m).take n = slice b o n := by
  simp only [slice, ← List.map_take, List.take_range, Nat.min_eq_left h]

/-- The bytes stored by `stBytes` read back. -/
theorem slice_stBytes (b : Bytes) (o : Nat) (src : List UInt8) :
    slice (stBytes b o src) o src.length = src := by
  apply List.ext_getElem (by simp [slice])
  intro i h₁ h₂
  simp only [slice, List.getElem_map, List.getElem_range]
  rw [stBytes_of_mem (by omega) (by simpa using h₂)]
  simp [List.getElem?_eq_getElem h₂]

end Xv6Net
