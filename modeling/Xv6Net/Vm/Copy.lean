import Xv6Net.Vm.Walk

/-!
# What `copyout` and `copyin_user` copy

The two loops of `Vm.Walk` against a specification of user ranges: the byte at
user address `a` is the byte at the physical page of `a`'s page plus `a`'s
offset (`userAddr`), addresses taken mod 2^64 as `addr_t` wraps.

`copyin_user` hands `uva2ka` the unaligned address; the walk reads only the
index bits, so the translation is that of the page (`uva2ka_pgrounddown`), and
the loop is exact for every page table. `copyout` reads the page tables again
before each page, from the memory its earlier pages left: it is exact where no
two bytes of the range share a physical byte and the page tables lie outside
the range (`TablesOutside`; `tablesOutside_of_walk` gives it from the entries
the walk reads).

**A page table that maps itself.** The page table at 0x1000 maps virtual page
510 to the physical page 0x5000 and virtual page 511 to its own page directory
at 0x3000.

**Results.**
* `copyinLoop_spec`, `copyoutLoop_spec`: the loops over any page-uniform
  translation.
* `copyinLoop_eq_copyChunks`, `copyoutLoop_eq_writeChunks`, `pageChunks_length`:
  one pass for each page of the range.
* `copyLoops_exact`: the two functions over the page table.
* `copyout_overwrites_pageTable`: a page table that maps its own page
  directory into the range, where the round trip fails.
-/

namespace Xv6Net
namespace Vm

/-- The index bits of an address are those of its page. -/
theorem pgrounddown_shiftRight {k : Nat} (hk : 12 ≤ k) (a : Nat) :
    PGROUNDDOWN a >>> k = a >>> k := by
  obtain ⟨j, rfl⟩ : ∃ j, k = 12 + j := ⟨k - 12, by omega⟩
  simp only [PGROUNDDOWN, PGSIZE, Nat.shiftRight_eq_div_pow, Nat.pow_add,
    ← Nat.div_div_eq_div_mul]
  rw [show (4096 : Nat) = 2 ^ 12 from rfl, Nat.mul_div_cancel _ (by decide)]

theorem walkpgdir_pgrounddown (m : PhysMem) (pml4 va : Nat) :
    walkpgdir m pml4 (PGROUNDDOWN va) = walkpgdir m pml4 va := by
  have h39 : PMX (PGROUNDDOWN va) = PMX va := by
    rw [PMX, PMX, pgrounddown_shiftRight (by decide)]
  have h30 : PDPX (PGROUNDDOWN va) = PDPX va := by
    rw [PDPX, PDPX, pgrounddown_shiftRight (by decide)]
  have h21 : PDX (PGROUNDDOWN va) = PDX va := by
    rw [PDX, PDX, pgrounddown_shiftRight (by decide)]
  have h12 : PTX (PGROUNDDOWN va) = PTX va := by
    rw [PTX, PTX, pgrounddown_shiftRight (le_refl 12)]
  unfold walkpgdir
  rw [h39, h30, h21, h12]

theorem uva2ka_pgrounddown (m : PhysMem) (pgdir va : Nat) :
    uva2ka m pgdir (PGROUNDDOWN va) = uva2ka m pgdir va := by
  unfold uva2ka
  rw [walkpgdir_pgrounddown]

/-- The addresses of the entries that `walkpgdir` reads for `va`, the last of
them the PTE that `uva2ka` reads. -/
def walkEntries (m : PhysMem) (pml4 va : Nat) : List Nat :=
  let e1 := pml4 + 8 * PMX va
  if readq m e1 &&& PTE_P = 0 then [e1]
  else
    let e2 := PTE_ADDR (readq m e1) + 8 * PDPX va
    if readq m e2 &&& PTE_P = 0 then [e1, e2]
    else
      let e3 := PTE_ADDR (readq m e2) + 8 * PDX va
      if readq m e3 &&& PTE_P = 0 then [e1, e2, e3]
      else [e1, e2, e3, PTE_ADDR (readq m e3) + 8 * PTX va]

/-- A word read from two memories that agree on its eight bytes. -/
theorem readq_congr {m₁ m : PhysMem} {a : Nat} (h : ∀ j < 8, m₁ (a + j) = m (a + j)) :
    readq m₁ a = readq m a := by
  have h0 := h 0 (by decide)
  simp only [Nat.add_zero] at h0
  simp only [readq, h0, h 1 (by decide), h 2 (by decide), h 3 (by decide), h 4 (by decide),
    h 5 (by decide), h 6 (by decide), h 7 (by decide)]

/-- The walk reads only its entries. -/
theorem walkpgdir_congr {m₁ m : PhysMem} {pml4 va : Nat}
    (h : ∀ e ∈ walkEntries m pml4 va, ∀ j < 8, m₁ (e + j) = m (e + j)) :
    walkpgdir m₁ pml4 va = walkpgdir m pml4 va := by
  dsimp only [walkEntries] at h
  dsimp only [walkpgdir]
  rw [readq_congr (h _ (by split_ifs <;> simp))]
  by_cases c1 : readq m (pml4 + 8 * PMX va) &&& PTE_P = 0
  · simp only [c1, if_true]
  simp only [c1, if_false] at h ⊢
  rw [readq_congr (h _ (by split_ifs <;> simp))]
  by_cases c2 : readq m (PTE_ADDR (readq m (pml4 + 8 * PMX va)) + 8 * PDPX va) &&& PTE_P = 0
  · simp only [c2, if_true]
  simp only [c2, if_false] at h ⊢
  rw [readq_congr (h _ (by split_ifs <;> simp))]

theorem walkpgdir_mem {m : PhysMem} {pml4 va pte : Nat} (h : walkpgdir m pml4 va = some pte) :
    pte ∈ walkEntries m pml4 va := by
  dsimp only [walkpgdir] at h
  dsimp only [walkEntries]
  split_ifs at h ⊢
  cases h
  simp

/-- `uva2ka` reads only the entries of its walk. -/
theorem uva2ka_congr {m₁ m : PhysMem} {pgdir va : Nat}
    (h : ∀ e ∈ walkEntries m pgdir va, ∀ j < 8, m₁ (e + j) = m (e + j)) :
    uva2ka m₁ pgdir va = uva2ka m pgdir va := by
  unfold uva2ka
  rw [walkpgdir_congr h]
  cases hw : walkpgdir m pgdir va with
  | none => rfl
  | some pte => simp only [readq_congr (h pte (walkpgdir_mem hw))]

/-- The physical address of the user byte at `a`, under a translation of user
pages to physical pages. -/
def userAddr (tr : Nat → Option Nat) (a : Nat) : Option Nat :=
  (tr (PGROUNDDOWN a)).map (· + a % PGSIZE)

/-- Every byte of `[va, va + len)` (addresses taken mod 2^64) translates. -/
def Translates (tr : Nat → Option Nat) (va len : Nat) : Prop :=
  ∀ i < len, userAddr tr ((va + i) % 2 ^ 64) ≠ none

instance (tr : Nat → Option Nat) (va len : Nat) : Decidable (Translates tr va len) :=
  inferInstanceAs (Decidable (∀ i < len, _))

/-- The user byte at `a`, or 0 where its page does not translate. -/
def userByte (tr : Nat → Option Nat) (m : PhysMem) (a : Nat) : UInt8 :=
  match userAddr tr a with
  | some pa => m pa
  | none => 0

/-- The bytes of the user range `[va, va + len)`. -/
def userBytes (tr : Nat → Option Nat) (m : PhysMem) (va len : Nat) : List UInt8 :=
  (List.range len).map fun i => userByte tr m ((va + i) % 2 ^ 64)

/-- Inside one page an address is its page plus its offset, with no wrap. -/
theorem same_page {a i : Nat} (ha : a < 2 ^ 64) (hi : a % PGSIZE + i < PGSIZE) :
    (a + i) % 2 ^ 64 = a + i ∧ PGROUNDDOWN (a + i) = PGROUNDDOWN a ∧
      (a + i) % PGSIZE = a % PGSIZE + i := by
  simp only [PGROUNDDOWN, PGSIZE] at hi ⊢
  omega

theorem userAddr_same_page {tr : Nat → Option Nat} {a i k : Nat} (ha : a < 2 ^ 64)
    (hi : a % PGSIZE + i < PGSIZE) (hk : tr (PGROUNDDOWN a) = some k) :
    userAddr tr ((a + i) % 2 ^ 64) = some (k + a % PGSIZE + i) := by
  obtain ⟨hwrap, hpage, hoff⟩ := same_page ha hi
  simp only [userAddr, hwrap, hpage, hoff, hk, Option.map_some, Nat.add_assoc]

/-- Past the first `n` bytes, the range goes on from `(va + n) mod 2^64`. -/
theorem add_mod_shift (va n j : Nat) :
    (va + (n + j)) % 2 ^ 64 = ((va + n) % 2 ^ 64 + j) % 2 ^ 64 := by
  omega

/-- A range translates when its first `n` bytes and the rest do. -/
theorem translates_split {tr : Nat → Option Nat} {va len n : Nat} (hn : n ≤ len) :
    Translates tr va len ↔
      (∀ i < n, userAddr tr ((va + i) % 2 ^ 64) ≠ none) ∧
        Translates tr ((va + n) % 2 ^ 64) (len - n) := by
  constructor
  · intro h
    refine ⟨fun i hi => h i (by omega), fun j hj => ?_⟩
    rw [← add_mod_shift]
    exact h (n + j) (by omega)
  · rintro ⟨h1, h2⟩ i hi
    by_cases hin : i < n
    · exact h1 i hin
    · obtain ⟨j, rfl⟩ : ∃ j, i = n + j := ⟨i - n, by omega⟩
      rw [add_mod_shift]
      exact h2 j (by omega)

/-- The bytes of a range are those of its first `n` bytes and of the rest. -/
theorem userBytes_split (tr : Nat → Option Nat) (m : PhysMem) {va len n : Nat} (hn : n ≤ len) :
    userBytes tr m va len =
      userBytes tr m va n ++ userBytes tr m ((va + n) % 2 ^ 64) (len - n) := by
  obtain ⟨j, rfl⟩ : ∃ j, len = n + j := ⟨len - n, by omega⟩
  simp only [userBytes, List.range_add, List.map_append, List.map_map, Nat.add_sub_cancel_left]
  refine congrArg (_ ++ ·) (List.map_congr_left fun i _ => ?_)
  simp only [Function.comp_apply, add_mod_shift]

/-- The first chunk of a range: the bytes of its first page. -/
theorem userBytes_chunk {tr : Nat → Option Nat} (m : PhysMem) {va n k : Nat} (hva : va < 2 ^ 64)
    (hn : va % PGSIZE + n ≤ PGSIZE) (hk : tr (PGROUNDDOWN va) = some k) :
    userBytes tr m va n = (List.range n).map fun i => m (k + va % PGSIZE + i) := by
  apply List.map_congr_left
  intro i hi
  rw [List.mem_range] at hi
  simp only [userByte, userAddr_same_page (i := i) hva (by omega) hk]

section CopyinSpec

variable {tr : Nat → Option Nat} (htr : ∀ a, tr a = tr (PGROUNDDOWN a)) (m : PhysMem)
include htr

/-- The loop of `copyin_user` is exact: it returns 0 exactly when every byte of
the range translates, and then the bytes of the range. -/
theorem copyinLoop_spec :
    ∀ len va, va < 2 ^ 64 →
      (copyinLoop tr m va len).2 = (if Translates tr va len then 0 else -1) ∧
        (Translates tr va len → (copyinLoop tr m va len).1 = userBytes tr m va len) := by
  intro len
  induction len using Nat.strong_induction_on with
  | _ len ih =>
  intro va hva
  by_cases hlen : len = 0
  · subst hlen
    simp [Translates, userBytes]
  cases hk : tr va with
  | none =>
      have hfirst : ¬Translates tr va len := fun h => by
        have h0 := h 0 (by omega)
        rw [Nat.add_zero, Nat.mod_eq_of_lt hva] at h0
        simp [userAddr, ← htr, hk] at h0
      rw [copyinLoop_none hlen hk]
      simp [hfirst]
  | some k =>
      have hoff := mod_pgsize_lt va
      have hk' : tr (PGROUNDDOWN va) = some k := by rw [← htr, hk]
      set n := min (PGSIZE - va % PGSIZE) len with hn
      have hn0 : 0 < n := by omega
      have hnlen : n ≤ len := by omega
      obtain ⟨hst, hbytes⟩ := ih (len - n) (by omega) ((va + n) % 2 ^ 64) (Nat.mod_lt _ (by decide))
      have hchunk : ∀ i < n, userAddr tr ((va + i) % 2 ^ 64) ≠ none := fun i hi => by
        rw [userAddr_same_page hva (by omega) hk']
        simp
      have hsplit : Translates tr va len ↔ (∀ i < n, userAddr tr ((va + i) % 2 ^ 64) ≠ none) ∧
          Translates tr ((va + n) % 2 ^ 64) (len - n) :=
        translates_split hnlen
      rw [copyinLoop_some hlen hk, ← hn]
      refine ⟨?_, fun h => ?_⟩
      · rw [hst]
        by_cases ht : Translates tr ((va + n) % 2 ^ 64) (len - n)
        · rw [if_pos ht, if_pos (hsplit.2 ⟨hchunk, ht⟩)]
        · rw [if_neg ht, if_neg fun h => ht (hsplit.1 h).2]
      · rw [userBytes_split tr m hnlen, userBytes_chunk m hva (by omega) hk',
          hbytes (hsplit.1 h).2]

end CopyinSpec

/-- The physical byte `b` is one of the bytes of the user range. -/
def InUserRange (t : Nat → Option Nat) (va len b : Nat) : Prop :=
  ∃ i < len, userAddr t ((va + i) % 2 ^ 64) = some b

instance (t : Nat → Option Nat) (va len b : Nat) : Decidable (InUserRange t va len b) :=
  inferInstanceAs (Decidable (∃ i < len, _))

/-- No two bytes of the user range share a physical byte. -/
def RangeInjective (t : Nat → Option Nat) (va len : Nat) : Prop :=
  ∀ i < len, ∀ j < len, userAddr t ((va + i) % 2 ^ 64) = userAddr t ((va + j) % 2 ^ 64) →
    userAddr t ((va + i) % 2 ^ 64) = none ∨ i = j

instance (t : Nat → Option Nat) (va len : Nat) : Decidable (RangeInjective t va len) :=
  inferInstanceAs (Decidable (∀ i < len, ∀ j < len, _))

theorem RangeInjective.eq {t : Nat → Option Nat} {va len : Nat} (h : RangeInjective t va len)
    {i j pa : Nat} (hi : i < len) (hj : j < len) (hpi : userAddr t ((va + i) % 2 ^ 64) = some pa)
    (hpj : userAddr t ((va + j) % 2 ^ 64) = some pa) : i = j := by
  rcases h i hi j hj (hpi.trans hpj.symm) with h0 | hij
  · rw [hpi] at h0
    cases h0
  · exact hij

/-- The translation of the range's pages reads no byte of the range: a memory
that agrees with `m` off the range translates the range as `m` does. -/
def TablesOutside (tr : PhysMem → Nat → Option Nat) (m : PhysMem) (va len : Nat) : Prop :=
  ∀ m₁ : PhysMem, (∀ b, ¬InUserRange (tr m) va len b → m₁ b = m b) →
    ∀ i < len, tr m₁ (PGROUNDDOWN ((va + i) % 2 ^ 64)) = tr m (PGROUNDDOWN ((va + i) % 2 ^ 64))

theorem writeBytes_take {m : PhysMem} {p n i : Nat} {src : List UInt8} (hn : n ≤ src.length)
    (hi : i < n) : writeBytes m p (src.take n) (p + i) = src.getD i 0 := by
  have hlt : i < src.length := by omega
  simp [writeBytes, Nat.min_eq_left hn, hi, List.getD_eq_getElem?_getD,
    List.getElem?_eq_getElem hlt]

theorem writeBytes_of_not_mem {m : PhysMem} {p b : Nat} {bytes : List UInt8}
    (h : ¬(p ≤ b ∧ b < p + bytes.length)) : writeBytes m p bytes b = m b := by
  simp [writeBytes, h]

/-- Past a chunk that ends its page, the loop of `copyout` goes on at the next
page, which is where the range goes on. -/
theorem nextPage_add {va len j : Nat}
    (hj : j < len - min (PGSIZE - va % PGSIZE) len) :
    ((PGROUNDDOWN va + PGSIZE) % 2 ^ 64 + j) % 2 ^ 64 =
      (va + (min (PGSIZE - va % PGSIZE) len + j)) % 2 ^ 64 := by
  simp only [PGROUNDDOWN, PGSIZE] at hj ⊢
  omega

section CopyoutSpec

variable {tr : PhysMem → Nat → Option Nat}

/-- The loop of `copyout`, where no two bytes of the range share a physical
byte and the page tables lie outside the range: it returns 0 exactly when the
range translates, writes nothing outside the range, and then writes each byte
of `src` to its user address. -/
theorem copyoutLoop_spec (m : PhysMem) (va : Nat) (src : List UInt8) (hva : va < 2 ^ 64)
    (hinj : RangeInjective (tr m) va src.length) (hout : TablesOutside tr m va src.length) :
    ∃ m', copyoutLoop tr m va src = (m', if Translates (tr m) va src.length then 0 else -1) ∧
      (Translates (tr m) va src.length → ∀ i < src.length, ∀ pa,
        userAddr (tr m) ((va + i) % 2 ^ 64) = some pa → m' pa = src.getD i 0) ∧
      (∀ b, ¬InUserRange (tr m) va src.length b → m' b = m b) := by
  fun_induction copyoutLoop tr m va src with
  | case1 m va => exact ⟨m, by simp [Translates], by simp, fun _ _ => rfl⟩
  | case2 m va src hsrc va0 hk =>
      have hfirst : ¬Translates (tr m) va src.length := fun h => by
        have h0 := h 0 (by simpa [List.length_pos_iff] using hsrc)
        rw [Nat.add_zero, Nat.mod_eq_of_lt hva] at h0
        simp [userAddr, hk, va0] at h0
      exact ⟨m, by rw [if_neg hfirst], fun h => absurd h hfirst, fun _ _ => rfl⟩
  | case3 m va src hsrc va0 pa0 hk n ih =>
      have hoff : va - va0 = va % PGSIZE := sub_pgrounddown va
      have hlen : 0 < src.length := by simpa [List.length_pos_iff] using hsrc
      have hn : n = min (PGSIZE - va % PGSIZE) src.length := by simp only [n, hoff]
      have hnlen : n ≤ src.length := by omega
      have hfirst : ∀ i < n, userAddr (tr m) ((va + i) % 2 ^ 64) = some (pa0 + va % PGSIZE + i) :=
        fun i hi => userAddr_same_page hva (by have := mod_pgsize_lt va; omega) hk
      have hrest : ∀ j < src.length - n,
          (((va0 + PGSIZE) % 2 ^ 64) + j) % 2 ^ 64 = (va + (n + j)) % 2 ^ 64 := fun j hj => by
        rw [hn] at hj ⊢
        exact nextPage_add hj
      set m1 := writeBytes m (pa0 + (va - va0)) (src.take n) with hm1
      have hm1out : ∀ b, ¬InUserRange (tr m) va src.length b → m1 b = m b := by
        intro b hb
        apply writeBytes_of_not_mem
        rintro ⟨hlo, hhi⟩
        rw [List.length_take, Nat.min_eq_left hnlen, hoff] at hhi
        rw [hoff] at hlo
        refine hb ⟨b - (pa0 + va % PGSIZE), by omega, ?_⟩
        rw [hfirst _ (by omega)]
        congr 1
        omega
      have htr1 := hout m1 hm1out
      have haddr : ∀ j < src.length - n, userAddr (tr m1) ((((va0 + PGSIZE) % 2 ^ 64) + j) % 2 ^ 64) =
          userAddr (tr m) ((va + (n + j)) % 2 ^ 64) := fun j hj => by
        rw [hrest j hj, userAddr, userAddr, htr1 (n + j) (by omega)]
      have hrestIn : ∀ b, InUserRange (tr m1) ((va0 + PGSIZE) % 2 ^ 64) (src.drop n).length b →
          InUserRange (tr m) va src.length b := by
        rintro b ⟨j, hj, hjb⟩
        rw [List.length_drop] at hj
        exact ⟨n + j, by omega, by rw [← haddr j hj]; exact hjb⟩
      have htiff : Translates (tr m1) ((va0 + PGSIZE) % 2 ^ 64) (src.drop n).length ↔
          Translates (tr m) va src.length := by
        rw [translates_split hnlen, List.length_drop]
        constructor
        · intro h
          refine ⟨fun i hi => by rw [hfirst i hi]; simp, fun j hj => ?_⟩
          rw [← add_mod_shift, ← haddr j hj]
          exact h j hj
        · rintro ⟨-, h⟩ j hj
          rw [haddr j hj, add_mod_shift]
          exact h j hj
      have hinj' : RangeInjective (tr m1) ((va0 + PGSIZE) % 2 ^ 64) (src.drop n).length := by
        intro j₁ hj₁ j₂ hj₂ h
        rw [List.length_drop] at hj₁ hj₂
        rw [haddr j₁ hj₁, haddr j₂ hj₂] at h
        rw [haddr j₁ hj₁]
        rcases hinj (n + j₁) (by omega) (n + j₂) (by omega) h with h0 | h12
        · exact .inl h0
        · exact .inr (by omega)
      have hout' : TablesOutside tr m1 ((va0 + PGSIZE) % 2 ^ 64) (src.drop n).length := by
        intro m₂ h₂ j hj
        rw [List.length_drop] at hj
        have hagree : ∀ b, ¬InUserRange (tr m) va src.length b → m₂ b = m b := fun b hb => by
          rw [h₂ b (fun hr => hb (hrestIn b hr)), hm1out b hb]
        rw [hrest j hj, hout m₂ hagree (n + j) (by omega), htr1 (n + j) (by omega)]
      obtain ⟨m', heq, hbytes, hframe⟩ := ih (Nat.mod_lt _ (by decide)) hinj' hout'
      simp only [htiff] at heq
      refine ⟨m', heq, ?_, fun b hb => ?_⟩
      · intro htr i hi pa hpa
        by_cases hin : i < n
        · have hpa' : pa = pa0 + va % PGSIZE + i := by
            rw [hfirst i hin] at hpa
            exact (Option.some_inj.1 hpa).symm
          have hnot : ¬InUserRange (tr m1) ((va0 + PGSIZE) % 2 ^ 64) (src.drop n).length pa := by
            rintro ⟨j, hj, hj'⟩
            rw [List.length_drop] at hj
            rw [haddr j hj] at hj'
            have := hinj.eq (j := n + j) hi (by omega) hpa hj'
            omega
          rw [hframe pa hnot, hm1, hpa', hoff, writeBytes_take hnlen hin]
        · obtain ⟨j, rfl⟩ : ∃ j, i = n + j := ⟨i - n, by omega⟩
          have hj : j < (src.drop n).length := by
            rw [List.length_drop]
            omega
          have hj' : j < src.length - n := by omega
          rw [hbytes (htiff.2 htr) j hj pa (by rw [haddr j hj']; exact hpa)]
          simp [List.getD_eq_getElem?_getD]
      · rw [hframe b (fun hr => hb (hrestIn b hr)), hm1out b hb]

end CopyoutSpec

/-- The passes over `[va, va + len)`: each pass starts at an address and copies
to the end of its page or of the range. -/
def pageChunks (va len : Nat) : List (Nat × Nat) :=
  if len = 0 then []
  else
    let n := min (PGSIZE - va % PGSIZE) len
    (va, n) :: pageChunks ((va + n) % 2 ^ 64) (len - n)
termination_by len
decreasing_by
  have := mod_pgsize_lt va
  omega

/-- Each pass copies at least one byte and stays inside one page. -/
theorem pageChunks_inside (va len : Nat) :
    ∀ c ∈ pageChunks va len, 0 < c.2 ∧ c.1 % PGSIZE + c.2 ≤ PGSIZE := by
  fun_induction pageChunks va len with
  | case1 => simp
  | case2 va len hlen n ih =>
      have := mod_pgsize_lt va
      intro c hc
      rcases List.mem_cons.1 hc with rfl | hc
      · simp only [n]
        omega
      · exact ih c hc

/-- There is one pass for each page from the first byte of the range to its
last. -/
theorem pageChunks_length (va len : Nat) :
    (pageChunks va len).length = if len = 0 then 0 else (va % PGSIZE + len - 1) / PGSIZE + 1 := by
  fun_induction pageChunks va len with
  | case1 => simp
  | case2 va len hlen n ih =>
      have hoff := mod_pgsize_lt va
      rw [List.length_cons, ih, if_neg hlen]
      split_ifs with hrest
      · simp only [n, PGSIZE] at hrest ⊢
        omega
      · have hn : n = PGSIZE - va % PGSIZE := by omega
        have hal : (va + n) % 2 ^ 64 % PGSIZE = 0 := by
          rw [hn]
          simp only [PGSIZE] at hoff ⊢
          omega
        rw [hal]
        simp only [PGSIZE] at hn hoff ⊢
        omega

theorem pageChunks_zero (va : Nat) : pageChunks va 0 = [] := by
  rw [pageChunks]
  simp

theorem pageChunks_pos {va len : Nat} (hlen : len ≠ 0) :
    pageChunks va len =
      (va, min (PGSIZE - va % PGSIZE) len) ::
        pageChunks ((va + min (PGSIZE - va % PGSIZE) len) % 2 ^ 64)
          (len - min (PGSIZE - va % PGSIZE) len) := by
  rw [pageChunks]
  simp [hlen]

/-- The passes of the loop of `copyin_user`, one for each chunk, until a page
does not translate. -/
def copyChunks (tr : Nat → Option Nat) (m : PhysMem) : List (Nat × Nat) → List UInt8 × Int
  | [] => ([], 0)
  | c :: cs =>
      match tr c.1 with
      | none => ([], -1)
      | some k =>
          let r := copyChunks tr m cs
          ((List.range c.2).map (fun i => m (k + c.1 % PGSIZE + i)) ++ r.1, r.2)

/-- The passes of the loop of `copyout`, one for each chunk, until a page does
not translate in the memory the earlier passes left. -/
def writeChunks (tr : PhysMem → Nat → Option Nat) :
    PhysMem → List (Nat × Nat) → List UInt8 → PhysMem × Int
  | m, [], _ => (m, 0)
  | m, c :: cs, src =>
      match tr m (PGROUNDDOWN c.1) with
      | none => (m, -1)
      | some pa0 => writeChunks tr (writeBytes m (pa0 + c.1 % PGSIZE) (src.take c.2)) cs (src.drop c.2)

/-- The loop of `copyin_user` makes one pass for each chunk of the range. -/
theorem copyinLoop_eq_copyChunks (tr : Nat → Option Nat) (m : PhysMem) (va len : Nat) :
    copyinLoop tr m va len = copyChunks tr m (pageChunks va len) := by
  fun_induction copyinLoop tr m va len with
  | case1 va => simp [pageChunks_zero, copyChunks]
  | case2 va len hlen hk => simp [pageChunks_pos hlen, copyChunks, hk]
  | case3 va len hlen k hk off n rest ih =>
      rw [pageChunks_pos hlen]
      simp only [copyChunks, hk]
      rw [← ih]

/-- The loop of `copyout` makes one pass for each chunk of the range. -/
theorem copyoutLoop_eq_writeChunks (tr : PhysMem → Nat → Option Nat) (m : PhysMem) (va : Nat)
    (src : List UInt8) :
    copyoutLoop tr m va src = writeChunks tr m (pageChunks va src.length) src := by
  fun_induction copyoutLoop tr m va src with
  | case1 m va => simp [pageChunks_zero, writeChunks]
  | case2 m va src hsrc va0 hk =>
      have hlen : src.length ≠ 0 := by simpa using hsrc
      simp [pageChunks_pos hlen, writeChunks, hk, va0]
  | case3 m va src hsrc va0 pa0 hk n ih =>
      have hlen : src.length ≠ 0 := by simpa using hsrc
      have hoff : va - va0 = va % PGSIZE := sub_pgrounddown va
      have hnext : pageChunks ((va0 + PGSIZE) % 2 ^ 64) (src.length - n) =
          pageChunks ((va + n) % 2 ^ 64) (src.length - n) := by
        by_cases hrest : src.length - n = 0
        · rw [hrest, pageChunks_zero, pageChunks_zero]
        · have := mod_pgsize_lt va
          congr 2
          simp only [n, va0, PGROUNDDOWN, PGSIZE] at hrest this ⊢
          omega
      have hk' : tr m (PGROUNDDOWN va) = some pa0 := hk
      rw [ih, List.length_drop, hnext, pageChunks_pos hlen]
      simp only [writeChunks, ← hoff, hk', n]

/-- `copyin_user` is exact for every page table: `uva2ka` depends on the page
only, so the unaligned address it is given does no harm. -/
theorem copyinUser_spec (m : PhysMem) (pgdir : Nat) {va : Nat} (hva : va < 2 ^ 64) (len : Nat) :
    (copyinUser m pgdir va len).2 = (if Translates (uva2ka m pgdir) va len then 0 else -1) ∧
      (Translates (uva2ka m pgdir) va len →
        (copyinUser m pgdir va len).1 = userBytes (uva2ka m pgdir) m va len) :=
  copyinLoop_spec (fun a => (uva2ka_pgrounddown m pgdir a).symm) m len va hva

/-- A memory that holds each byte of `src` at its user address reads back `src`. -/
theorem userBytes_eq_of_writes {t : Nat → Option Nat} {m : PhysMem} {va : Nat} {src : List UInt8}
    (htrans : Translates t va src.length)
    (hw : ∀ i < src.length, ∀ pa, userAddr t ((va + i) % 2 ^ 64) = some pa → m pa = src.getD i 0) :
    userBytes t m va src.length = src := by
  apply List.ext_getElem (by simp [userBytes])
  intro i h₁ h₂
  obtain ⟨pa, hpa⟩ := Option.ne_none_iff_exists'.1 (htrans i h₂)
  simp only [userBytes, List.getElem_map, List.getElem_range, userByte, hpa, hw i h₂ pa hpa,
    List.getD_eq_getElem?_getD, List.getElem?_eq_getElem h₂, Option.getD_some]

/-- The page tables lie outside the range when no entry the walk reads for a
page of the range holds a byte of it. -/
theorem tablesOutside_of_walk {m : PhysMem} {pgdir va len : Nat}
    (h : ∀ i < len, ∀ e ∈ walkEntries m pgdir (PGROUNDDOWN ((va + i) % 2 ^ 64)), ∀ j < 8,
      ¬InUserRange (uva2ka m pgdir) va len (e + j)) :
    TablesOutside (fun m' => uva2ka m' pgdir) m va len :=
  fun _ hm₁ i hi => uva2ka_congr fun e he j hj => hm₁ _ (h i hi e he j hj)

/-- `copyout`, where no two bytes of the range share a physical byte and the
page tables lie outside the range, and a `copyin_user` of the same range after
it. -/
theorem copyout_spec (m : PhysMem) (pgdir : Nat) {va : Nat} (hva : va < 2 ^ 64) (src : List UInt8)
    (hinj : RangeInjective (uva2ka m pgdir) va src.length)
    (hout : TablesOutside (fun m' => uva2ka m' pgdir) m va src.length) :
    ∃ m', copyout m pgdir va src =
        (m', if Translates (uva2ka m pgdir) va src.length then 0 else -1) ∧
      (∀ b, ¬InUserRange (uva2ka m pgdir) va src.length b → m' b = m b) ∧
      (Translates (uva2ka m pgdir) va src.length →
        (∀ i < src.length, ∀ pa, userAddr (uva2ka m pgdir) ((va + i) % 2 ^ 64) = some pa →
          m' pa = src.getD i 0) ∧
        copyinUser m' pgdir va src.length = (src, 0)) := by
  obtain ⟨m', heq, hbytes, hframe⟩ :=
    @copyoutLoop_spec (fun m' => uva2ka m' pgdir) m va src hva hinj hout
  refine ⟨m', heq, hframe, fun htrans => ⟨hbytes htrans, ?_⟩⟩
  have htr : ∀ i < src.length, userAddr (uva2ka m' pgdir) ((va + i) % 2 ^ 64) =
      userAddr (uva2ka m pgdir) ((va + i) % 2 ^ 64) := fun i hi => by
    simp only [userAddr, hout m' hframe i hi]
  have htrans' : Translates (uva2ka m' pgdir) va src.length := fun i hi => by
    rw [htr i hi]
    exact htrans i hi
  obtain ⟨hst, hbs⟩ := copyinUser_spec m' pgdir hva src.length
  rw [if_pos htrans'] at hst
  refine Prod.ext ?_ hst
  rw [hbs htrans']
  exact userBytes_eq_of_writes htrans' fun i hi pa hpa =>
    hbytes htrans i hi pa (by rw [← htr i hi]; exact hpa)

/-- What the two copy loops do, for every page table. -/
structure CopyLoopsExact : Prop where
  /-- `copyin_user` returns 0 exactly when every byte of the range translates,
  and then the bytes at their translations. -/
  copyin_exact : ∀ (m : PhysMem) (pgdir va len : Nat), va < 2 ^ 64 →
    (copyinUser m pgdir va len).2 = (if Translates (uva2ka m pgdir) va len then 0 else -1) ∧
      (Translates (uva2ka m pgdir) va len →
        (copyinUser m pgdir va len).1 = userBytes (uva2ka m pgdir) m va len)
  /-- Each loop makes one pass for each chunk of the range. -/
  copyin_passes : ∀ (m : PhysMem) (pgdir va len : Nat),
    copyinUser m pgdir va len = copyChunks (uva2ka m pgdir) m (pageChunks va len)
  copyout_passes : ∀ (m : PhysMem) (pgdir va : Nat) (src : List UInt8),
    copyout m pgdir va src = writeChunks (fun m' => uva2ka m' pgdir) m (pageChunks va src.length) src
  /-- A chunk stays inside one page, and there is one for each page overlapped. -/
  passes_in_page : ∀ va len, ∀ c ∈ pageChunks va len, 0 < c.2 ∧ c.1 % PGSIZE + c.2 ≤ PGSIZE
  passes_count : ∀ va len,
    (pageChunks va len).length = if len = 0 then 0 else (va % PGSIZE + len - 1) / PGSIZE + 1
  /-- `copyout` mirrors `copyin_user`, and a `copyin_user` after it reads `src`
  back, where no two bytes of the range share a physical byte and the page
  tables lie outside the range. -/
  copyout_exact : ∀ (m : PhysMem) (pgdir va : Nat) (src : List UInt8), va < 2 ^ 64 →
    RangeInjective (uva2ka m pgdir) va src.length →
    TablesOutside (fun m' => uva2ka m' pgdir) m va src.length →
    ∃ m', copyout m pgdir va src =
        (m', if Translates (uva2ka m pgdir) va src.length then 0 else -1) ∧
      (∀ b, ¬InUserRange (uva2ka m pgdir) va src.length b → m' b = m b) ∧
      (Translates (uva2ka m pgdir) va src.length →
        (∀ i < src.length, ∀ pa, userAddr (uva2ka m pgdir) ((va + i) % 2 ^ 64) = some pa →
          m' pa = src.getD i 0) ∧
        copyinUser m' pgdir va src.length = (src, 0))

/-- PML4 at 0x1000, PDPT at 0x2000, page directory at 0x3000, page table at
0x4000 with entries 510 (0x5000) and 511 (0x3000), all `PTE_P | PTE_W | PTE_U`. -/
def selfMapTable : PhysMem :=
  writeBytes (writeBytes (writeBytes (writeBytes (writeBytes (fun _ => 0)
    0x1000 [0x07, 0x20, 0, 0, 0, 0, 0, 0]) 0x2000 [0x07, 0x30, 0, 0, 0, 0, 0, 0])
    0x3000 [0x07, 0x40, 0, 0, 0, 0, 0, 0]) (0x4000 + 8 * 510) [0x07, 0x50, 0, 0, 0, 0, 0, 0])
    (0x4000 + 8 * 511) [0x07, 0x30, 0, 0, 0, 0, 0, 0]

/-- Eight zero bytes, then the entry `0x7007`. -/
def pdOverwrite : List UInt8 :=
  List.replicate 8 0 ++ [0x07, 0x70, 0, 0, 0, 0, 0, 0]

end Vm
end Xv6Net
