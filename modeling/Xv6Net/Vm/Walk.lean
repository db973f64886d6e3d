import Xv6Net.Kernel.Defs

/-!
# Four-level page-table walk and the user-copy loops

`walkpgdir` (with `alloc = 0`), `uva2ka` and `copyout` of `vm.c`, and
`copyin_user` of `net.c`, over a byte-addressed physical memory.

**Memory.**  `PhysMem := Nat → UInt8`.  A page-table entry is the 64-bit
little-endian word at `table + 8 * index` (`readq`).  The kernel reaches a
physical address `pa` through `P2V(pa)`; the model reads `pa` directly.

**Walk.**  `walkpgdir` descends PML4, PDPT and PD, following `PTE_ADDR` of
every present entry, and returns the physical address of the PTE.  Like the
source it tests only `PTE_P` on the way down: the `PTE_PS` and `PTE_U` bits of
the upper levels are not looked at.

**Copies.**  Both loops copy page by page; each chunk stays inside one
virtual page.  `copyout` returns the memory after its writes and 0 or -1;
`copyinUser` returns the bytes it wrote to `dst`, in order, and 0 or -1.
On failure the chunks already copied stay copied, as in the source.
-/

namespace Xv6Net
namespace Vm

/-- Physical memory, byte addressed. -/
abbrev PhysMem := Nat → UInt8

/-- `PTE_P`. -/
def PTE_P : Nat := 0x001

/-- `PTE_W`. -/
def PTE_W : Nat := 0x002

/-- `PTE_U`. -/
def PTE_U : Nat := 0x004

/-- `PTE_PS`. -/
def PTE_PS : Nat := 0x080

/-- `PMX(va)`: index into the PML4. -/
def PMX (va : Nat) : Nat := (va >>> 39) &&& 0x1FF

/-- `PDPX(va)`: index into the PDPT. -/
def PDPX (va : Nat) : Nat := (va >>> 30) &&& 0x1FF

/-- `PDX(va)`: index into the page directory. -/
def PDX (va : Nat) : Nat := (va >>> 21) &&& 0x1FF

/-- `PTX(va)`: index into the page table. -/
def PTX (va : Nat) : Nat := (va >>> 12) &&& 0x1FF

/-- `PTE_ADDR(pte)`: the entry with its low twelve flag bits cleared. -/
def PTE_ADDR (pte : Nat) : Nat := pte &&& 0xFFFFFFFFFFFFF000

/-- `PGROUNDDOWN(a)`. -/
def PGROUNDDOWN (a : Nat) : Nat := a / PGSIZE * PGSIZE

/-- The 64-bit little-endian word at physical address `pa`. Each weight stands
before its byte: the kernel unfolds `x * 2 ^ 56` with `x` unknown by recursion
on the literal, and `2 ^ 56 * x` stops at `x`. -/
def readq (m : PhysMem) (pa : Nat) : Nat :=
  (m pa).toNat + 2 ^ 8 * (m (pa + 1)).toNat + 2 ^ 16 * (m (pa + 2)).toNat +
    2 ^ 24 * (m (pa + 3)).toNat + 2 ^ 32 * (m (pa + 4)).toNat +
    2 ^ 40 * (m (pa + 5)).toNat + 2 ^ 48 * (m (pa + 6)).toNat + 2 ^ 56 * (m (pa + 7)).toNat

/-- `memmove(pa, bytes, n)` into physical memory. -/
def writeBytes (m : PhysMem) (pa : Nat) (bytes : List UInt8) : PhysMem :=
  fun a => if pa ≤ a ∧ a < pa + bytes.length then bytes.getD (a - pa) 0 else m a

/-- `walkpgdir(pml4, va, 0)`: the physical address of the PTE for `va`, or
`none` where the source returns 0. -/
def walkpgdir (m : PhysMem) (pml4 : Nat) (va : Nat) : Option Nat :=
  let pml4e := readq m (pml4 + 8 * PMX va)
  if pml4e &&& PTE_P = 0 then none
  else
    let pdp := PTE_ADDR pml4e
    let pdpe := readq m (pdp + 8 * PDPX va)
    if pdpe &&& PTE_P = 0 then none
    else
      let pd := PTE_ADDR pdpe
      let pde := readq m (pd + 8 * PDX va)
      if pde &&& PTE_P = 0 then none
      else some (PTE_ADDR pde + 8 * PTX va)

/-- `uva2ka(pgdir, uva)`: the physical address of the page mapping `uva`
(the source returns its kernel alias `P2V(pa)`), or `none` for 0. -/
def uva2ka (m : PhysMem) (pgdir : Nat) (uva : Nat) : Option Nat :=
  match walkpgdir m pgdir uva with
  | none => none
  | some pte =>
      let e := readq m pte
      if e &&& PTE_P = 0 then none
      else if e &&& PTE_U = 0 then none
      else if PHYSTOP ≤ PTE_ADDR e then none
      else some (PTE_ADDR e)

theorem mod_pgsize_lt (a : Nat) : a % PGSIZE < PGSIZE :=
  Nat.mod_lt a (by decide)

theorem sub_pgrounddown (a : Nat) : a - PGROUNDDOWN a = a % PGSIZE := by
  have h := Nat.div_add_mod a PGSIZE
  simp only [PGROUNDDOWN]
  rw [Nat.mul_comm] at h
  omega

/-- The loop of `copyout`, over a translation `tr` of page-aligned user
addresses to physical pages (`uva2ka(pgdir, ·)`), which reads the page tables
from the current memory. -/
def copyoutLoop (tr : PhysMem → Nat → Option Nat) (m : PhysMem) (va : Nat)
    (src : List UInt8) : PhysMem × Int :=
  if src = [] then (m, 0)
  else
    let va0 := PGROUNDDOWN va
    match tr m va0 with
    | none => (m, -1)
    | some pa0 =>
        let n := min (PGSIZE - (va - va0)) src.length
        copyoutLoop tr (writeBytes m (pa0 + (va - va0)) (src.take n))
          ((va0 + PGSIZE) % 2 ^ 64) (src.drop n)
termination_by src.length
decreasing_by
  have hlt := mod_pgsize_lt va
  have hne : src.length ≠ 0 := by simpa using ‹¬src = []›
  rw [sub_pgrounddown, List.length_drop]
  omega

section CopyoutLoop

variable {tr : PhysMem → Nat → Option Nat} {m : PhysMem} {va : Nat} {src : List UInt8}

@[simp] theorem copyoutLoop_nil (tr : PhysMem → Nat → Option Nat) (m : PhysMem) (va : Nat) :
    copyoutLoop tr m va [] = (m, 0) := by
  rw [copyoutLoop]
  simp

theorem copyoutLoop_none (hsrc : src ≠ []) (h : tr m (PGROUNDDOWN va) = none) :
    copyoutLoop tr m va src = (m, -1) := by
  rw [copyoutLoop]
  simp [hsrc, h]

theorem copyoutLoop_some {pa0 : Nat} (hsrc : src ≠ []) (h : tr m (PGROUNDDOWN va) = some pa0) :
    copyoutLoop tr m va src =
      copyoutLoop tr
        (writeBytes m (pa0 + (va - PGROUNDDOWN va))
          (src.take (min (PGSIZE - (va - PGROUNDDOWN va)) src.length)))
        ((PGROUNDDOWN va + PGSIZE) % 2 ^ 64)
        (src.drop (min (PGSIZE - (va - PGROUNDDOWN va)) src.length)) := by
  rw [copyoutLoop]
  simp [hsrc, h]

end CopyoutLoop

/-- `copyout(pgdir, va, src, len)`: the memory after the copy and the result. -/
def copyout (m : PhysMem) (pgdir : Nat) (va : Nat) (src : List UInt8) : PhysMem × Int :=
  copyoutLoop (fun m' => uva2ka m' pgdir) m va src

/-- The loop of `copyin_user`, over a translation `tr` of user addresses to
physical pages (`uva2ka(pgdir, ·)`). -/
def copyinLoop (tr : Nat → Option Nat) (m : PhysMem) (srcva len : Nat) : List UInt8 × Int :=
  if len = 0 then ([], 0)
  else
    match tr srcva with
    | none => ([], -1)
    | some k =>
        let off := srcva % PGSIZE
        let n := min (PGSIZE - off) len
        let rest := copyinLoop tr m ((srcva + n) % 2 ^ 64) (len - n)
        ((List.range n).map (fun i => m (k + off + i)) ++ rest.1, rest.2)
termination_by len
decreasing_by
  have hlt := mod_pgsize_lt srcva
  omega

section CopyinLoop

variable {tr : Nat → Option Nat} {m : PhysMem} {srcva len : Nat}

@[simp] theorem copyinLoop_zero (tr : Nat → Option Nat) (m : PhysMem) (srcva : Nat) :
    copyinLoop tr m srcva 0 = ([], 0) := by
  rw [copyinLoop]
  simp

theorem copyinLoop_none (hlen : len ≠ 0) (h : tr srcva = none) :
    copyinLoop tr m srcva len = ([], -1) := by
  rw [copyinLoop]
  simp [hlen, h]

theorem copyinLoop_some {k : Nat} (hlen : len ≠ 0) (h : tr srcva = some k) :
    copyinLoop tr m srcva len =
      ((List.range (min (PGSIZE - srcva % PGSIZE) len)).map (fun i => m (k + srcva % PGSIZE + i)) ++
          (copyinLoop tr m ((srcva + min (PGSIZE - srcva % PGSIZE) len) % 2 ^ 64)
            (len - min (PGSIZE - srcva % PGSIZE) len)).1,
        (copyinLoop tr m ((srcva + min (PGSIZE - srcva % PGSIZE) len) % 2 ^ 64)
            (len - min (PGSIZE - srcva % PGSIZE) len)).2) := by
  rw [copyinLoop]
  simp [hlen, h]

end CopyinLoop

/-- `copyin_user(pgdir, dst, srcva, len)`: the bytes written to `dst`, in
order, and the result. -/
def copyinUser (m : PhysMem) (pgdir : Nat) (srcva len : Nat) : List UInt8 × Int :=
  copyinLoop (uva2ka m pgdir) m srcva len

end Vm
end Xv6Net
