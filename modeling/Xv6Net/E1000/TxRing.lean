import Xv6Net.E1000.Tx

/-!
# The transmit ring as a queue

What the transmit ring of `e1000.c` is for: the buffers `e1000_transmit`
accepts are sent by the NIC in the order they were accepted, each once, and a
buffer is passed to `kfree` only after the NIC has sent it.

**Views.**  `TxState.pending` counts the descriptors handed to the NIC and not
yet sent: the slots from TDH up to TDT, or the whole ring when TDT has come back
onto TDH over a pending slot.  `pendingBufs` lists their buffers from TDH on;
`sentBufs` lists the buffers that `tx_bufs` still holds in the other slots,
from TDT on: the NIC has sent them and `e1000_transmit` has not yet freed them.

**Results.**
* `TxRep`: the ring invariant, with the number of pending descriptors as its
  index; every step of the driver and the NIC keeps it (`TxRep.txStep_laws`).
* `txRing_fifo`: along every run from `e1000_init`, the buffers accepted are
  the buffers sent, in order, followed by those still pending.
* `txRing_frees_sent`: the buffers sent are the buffers freed, in order,
  followed by those the ring still holds, so `kfree` only ever gets a buffer
  after the NIC has sent it, and gets it once.
* `txRing_accepts_iff`, `txRing_sends_iff`: the driver refuses a buffer
  exactly when sixteen are pending, and the NIC sends exactly when one to
  fifteen are; with sixteen pending no step moves the ring
  (`TxRep.txStep_full`).
-/

namespace Xv6Net
namespace E1000

open Lib

/-- The number of descriptors handed to the NIC and not yet sent. -/
def TxState.pending (s : TxState) : Nat :=
  if s.tdh = s.tdt then
    if (s.txRing s.tdh).status &&& E1000_TXD_STAT_DD = 0 then TX_RING_SIZE else 0
  else (s.tdt + TX_RING_SIZE - s.tdh) % TX_RING_SIZE

/-- The buffers waiting to be sent, oldest first. -/
def TxState.pendingBufs (s : TxState) : List Addr :=
  (List.range s.pending).map fun k => (s.txRing ((s.tdh + k) % TX_RING_SIZE)).addr

/-- The buffers the ring holds after the NIC sent them, oldest first; a slot
whose `tx_bufs` entry is 0 holds none. -/
def TxState.sentBufs (s : TxState) : List Addr :=
  ((List.range (TX_RING_SIZE - s.pending)).map fun j =>
    s.txBufs ((s.tdt + j) % TX_RING_SIZE)).filter fun b => b != 0

/-- The state after the NIC sent descriptor TDH: its DD bit set, TDH moved on. -/
def TxState.sendHead (s : TxState) : TxState :=
  { s with
    txRing := Function.update s.txRing s.tdh
      { s.txRing s.tdh with status := (s.txRing s.tdh).status ||| E1000_TXD_STAT_DD },
    tdh := (s.tdh + 1) % TX_RING_SIZE }

theorem nicTransmit_busy {s : TxState} (hne : s.tdh ≠ s.tdt) :
    nicTransmit s = some (s.sendHead, s.txRing s.tdh) := by
  simp [nicTransmit, hne, TxState.sendHead]

/-- The buffer of a call of `e1000_transmit` that returned 0. -/
def TxEvent.acceptedBuf : TxEvent → List Addr
  | .returned buf r => if r = 0 then [buf] else []
  | _ => []

/-- The buffer of a descriptor the NIC sent. -/
def TxEvent.sentBuf : TxEvent → List Addr
  | .sent a _ => [a]
  | _ => []

/-- The buffer of a descriptor the NIC sent, when it is not 0. -/
def TxEvent.sentPage : TxEvent → List Addr
  | .sent a _ => if a ≠ 0 then [a] else []
  | _ => []

/-- The buffer passed to `kfree`. -/
def TxEvent.freedBuf : TxEvent → List Addr
  | .freed b => [b]
  | _ => []

theorem txPos_ne {r a b : Nat} (ha : a < TX_RING_SIZE) (hb : b < TX_RING_SIZE) (hab : a ≠ b) :
    (r + a) % TX_RING_SIZE ≠ (r + b) % TX_RING_SIZE := by
  simp only [TX_RING_SIZE] at *
  omega

theorem txPos_succ (r a : Nat) :
    ((r + a) % TX_RING_SIZE + 1) % TX_RING_SIZE = (r + (a + 1)) % TX_RING_SIZE := by
  simp only [TX_RING_SIZE]
  omega

theorem txPos_shift (r k : Nat) :
    ((r + 1) % TX_RING_SIZE + k) % TX_RING_SIZE = (r + (k + 1)) % TX_RING_SIZE := by
  simp only [TX_RING_SIZE]
  omega

/-- A position less than a full turn past `r` is not `r`. -/
theorem txPos_ne_self {r a : Nat} (ha0 : 0 < a) (ha : a < TX_RING_SIZE) :
    (r + a) % TX_RING_SIZE ≠ r := by
  simp only [TX_RING_SIZE] at *
  omega

/-- TDT `n` slots past TDH is back on TDH only for an empty or a full ring. -/
theorem txPos_eq_self {r n : Nat} (hn : n ≤ TX_RING_SIZE) (h : (r + n) % TX_RING_SIZE = r) :
    n = 0 ∨ n = TX_RING_SIZE := by
  simp only [TX_RING_SIZE] at *
  omega

/-- Setting the DD bit sets it. -/
@[simp] theorem txd_dd_or (x : UInt8) :
    (x ||| E1000_TXD_STAT_DD) &&& E1000_TXD_STAT_DD = E1000_TXD_STAT_DD := by
  apply UInt8.toNat_inj.mp
  simp [E1000_TXD_STAT_DD, Nat.and_one_is_mod]

/-- Ring invariant with `n` descriptors pending: they are the `n` slots from
TDH on, their DD bits are clear and `tx_bufs` remembers their buffers; the
other slots have DD set; TDT is `n` slots past TDH. -/
structure TxRep (s : TxState) (n : Nat) : Prop where
  tdh_lt : s.tdh < TX_RING_SIZE
  le : n ≤ TX_RING_SIZE
  tdt_eq : s.tdt = (s.tdh + n) % TX_RING_SIZE
  pending : ∀ k < n,
    (s.txRing ((s.tdh + k) % TX_RING_SIZE)).status &&& E1000_TXD_STAT_DD = 0 ∧
      s.txBufs ((s.tdh + k) % TX_RING_SIZE) = (s.txRing ((s.tdh + k) % TX_RING_SIZE)).addr
  done : ∀ k, n ≤ k → k < TX_RING_SIZE →
    (s.txRing ((s.tdh + k) % TX_RING_SIZE)).status &&& E1000_TXD_STAT_DD ≠ 0

theorem txRep_init : TxRep txInit 0 where
  tdh_lt := by simp [txInit, TX_RING_SIZE]
  le := Nat.zero_le _
  tdt_eq := by simp [txInit]
  pending := fun k hk => absurd hk (Nat.not_lt_zero k)
  done := fun _ _ _ => by simp [txInit, E1000_TXD_STAT_DD]

namespace TxRep

variable {s : TxState} {n : Nat}

theorem slot_tdt (h : TxRep s n) : s.tdt % TX_RING_SIZE = (s.tdh + n) % TX_RING_SIZE := by
  rw [h.tdt_eq, Nat.mod_mod]

theorem head_pos (h : TxRep s n) : (s.tdh + 0) % TX_RING_SIZE = s.tdh := by
  rw [Nat.add_zero, Nat.mod_eq_of_lt h.tdh_lt]

/-- The invariant determines the count. -/
theorem pending_eq (h : TxRep s n) : s.pending = n := by
  have hh := h.tdh_lt
  have hn := h.le
  have ht := h.tdt_eq
  unfold TxState.pending
  split_ifs with heq hdd
  · rcases txPos_eq_self hn (ht.symm.trans heq.symm) with rfl | rfl
    · exact absurd hdd (h.head_pos ▸ h.done 0 le_rfl (by decide))
    · rfl
  · rcases txPos_eq_self hn (ht.symm.trans heq.symm) with rfl | rfl
    · rfl
    · exact absurd (h.head_pos ▸ (h.pending 0 (by decide)).1) hdd
  · simp only [TX_RING_SIZE] at *
    omega

theorem tdh_eq_tdt_iff (h : TxRep s n) : s.tdh = s.tdt ↔ n = 0 ∨ n = TX_RING_SIZE := by
  constructor
  · intro heq
    exact txPos_eq_self h.le (h.tdt_eq.symm.trans heq.symm)
  · rintro (rfl | rfl) <;> rw [h.tdt_eq] <;> simp [Nat.mod_eq_of_lt h.tdh_lt]

/-- With fewer than sixteen pending, the slot at TDT has DD set. -/
theorem transmit_ok (h : TxRep s n) (hn : n < TX_RING_SIZE) :
    (s.txRing (s.tdt % TX_RING_SIZE)).status &&& E1000_TXD_STAT_DD ≠ 0 := by
  rw [h.slot_tdt]
  exact h.done n le_rfl hn

/-- With sixteen pending, TDT is on TDH, whose slot is pending. -/
theorem transmit_refused (h : TxRep s TX_RING_SIZE) (buf : Addr) (len : Int) :
    e1000Transmit s buf len = (s, -1, none) := by
  apply e1000Transmit_fail
  rw [h.slot_tdt, Nat.add_mod_right, Nat.mod_eq_of_lt h.tdh_lt, ← h.head_pos]
  exact (h.pending 0 (by decide)).1

/-- A call that programs the slot at TDT appends its buffer to the queue. -/
theorem program (h : TxRep s n) (hn : n < TX_RING_SIZE) (buf : Addr) (len : Int) :
    TxRep (s.program (s.tdt % TX_RING_SIZE) buf len) (n + 1) := by
  rw [h.slot_tdt]
  have hpos : ∀ k < TX_RING_SIZE, k ≠ n →
      (s.tdh + k) % TX_RING_SIZE ≠ (s.tdh + n) % TX_RING_SIZE :=
    fun k hk hkn => txPos_ne hk hn hkn
  refine ⟨h.tdh_lt, hn, txPos_succ _ _, fun k hk => ?_, fun k hk hk16 => ?_⟩
  · by_cases hkn : k = n
    · subst hkn
      simp [TxState.program]
    · have hne := hpos k (by omega) hkn
      simp only [TxState.program, Function.update_of_ne hne]
      exact h.pending k (by omega)
  · have hne := hpos k hk16 (by omega)
    simp only [TxState.program, Function.update_of_ne hne]
    exact h.done k (by omega) hk16

theorem pendingBufs_program (h : TxRep s n) (hn : n < TX_RING_SIZE) (buf : Addr) (len : Int) :
    (s.program (s.tdt % TX_RING_SIZE) buf len).pendingBufs = s.pendingBufs ++ [buf] := by
  rw [TxState.pendingBufs, TxState.pendingBufs, (h.program hn buf len).pending_eq, h.pending_eq,
    List.range_succ, List.map_append, h.slot_tdt]
  congr 1
  · apply List.map_congr_left
    intro k hk
    rw [List.mem_range] at hk
    simp only [TxState.program, Function.update_of_ne (txPos_ne (by omega) hn (Nat.ne_of_lt hk))]
  · simp [TxState.program]

/-- The slot at TDT leaves the sent part: its old buffer is the one freed. -/
theorem sentBufs_program (h : TxRep s n) (hn : n < TX_RING_SIZE) (buf : Addr) (len : Int) :
    s.sentBufs =
      (if s.txBufs (s.tdt % TX_RING_SIZE) ≠ 0 then [s.txBufs (s.tdt % TX_RING_SIZE)] else []) ++
        (s.program (s.tdt % TX_RING_SIZE) buf len).sentBufs := by
  have ht := h.tdt_eq
  have htl : s.tdt < TX_RING_SIZE := by
    rw [ht]
    exact Nat.mod_lt _ (by decide)
  rw [TxState.sentBufs, TxState.sentBufs, (h.program hn buf len).pending_eq, h.pending_eq]
  have hm : TX_RING_SIZE - n = TX_RING_SIZE - (n + 1) + 1 := by omega
  rw [hm, List.range_succ_eq_map, List.map_cons, List.map_map, Nat.add_zero,
    Nat.mod_eq_of_lt htl]
  have hrest : (List.range (TX_RING_SIZE - (n + 1))).map
      ((fun j => s.txBufs ((s.tdt + j) % TX_RING_SIZE)) ∘ Nat.succ) =
      (List.range (TX_RING_SIZE - (n + 1))).map fun j =>
        (s.program s.tdt buf len).txBufs (((s.program s.tdt buf len).tdt + j) % TX_RING_SIZE) := by
    apply List.map_congr_left
    intro j hj
    rw [List.mem_range] at hj
    simp only [Function.comp, TxState.program, Nat.succ_eq_add_one]
    rw [txPos_shift, Function.update_of_ne (txPos_ne_self (Nat.succ_pos j) (by omega))]
  rw [hrest]
  by_cases hb : s.txBufs s.tdt = 0 <;> simp [hb]

/-- The NIC sending the oldest pending descriptor leaves one fewer pending. -/
theorem sendHead (h : TxRep s n) (h0 : 0 < n) : TxRep s.sendHead (n - 1) := by
  have hh := h.tdh_lt
  have hn := h.le
  have hne : ∀ k, k + 1 < TX_RING_SIZE → (s.tdh + (k + 1)) % TX_RING_SIZE ≠ s.tdh :=
    fun k hk => txPos_ne_self (Nat.succ_pos k) hk
  refine ⟨Nat.mod_lt _ (by decide), by omega, ?_, fun k hk => ?_, fun k hk hk16 => ?_⟩
  · simp only [TxState.sendHead]
    rw [txPos_shift, h.tdt_eq, Nat.sub_add_cancel h0]
  · have hk1 : k + 1 < n := by omega
    simp only [TxState.sendHead]
    rw [txPos_shift, Function.update_of_ne (hne k (by omega))]
    exact h.pending (k + 1) hk1
  · simp only [TxState.sendHead]
    rw [txPos_shift]
    by_cases hlast : k + 1 = TX_RING_SIZE
    · rw [hlast, Nat.add_mod_right, Nat.mod_eq_of_lt hh]
      simp only [Function.update_self, txd_dd_or]
      decide
    · rw [Function.update_of_ne (hne k (by omega))]
      exact h.done (k + 1) (by omega) (by omega)

theorem pendingBufs_sendHead (h : TxRep s n) (h0 : 0 < n) :
    s.pendingBufs = (s.txRing s.tdh).addr :: s.sendHead.pendingBufs := by
  rw [TxState.pendingBufs, TxState.pendingBufs, (h.sendHead h0).pending_eq, h.pending_eq]
  obtain ⟨m, rfl⟩ : ∃ m, n = m + 1 := ⟨n - 1, by omega⟩
  rw [List.range_succ_eq_map, List.map_cons, List.map_map, h.head_pos, Nat.add_sub_cancel]
  congr 1
  apply List.map_congr_left
  intro k _
  simp only [Function.comp, TxState.sendHead, txPos_shift]
  by_cases hk : (s.tdh + (k + 1)) % TX_RING_SIZE = s.tdh
  · rw [hk, Function.update_self]
  · rw [Function.update_of_ne hk]

/-- The descriptor just sent joins the sent part, at its end. -/
theorem sentBufs_sendHead (h : TxRep s n) (h0 : 0 < n) :
    s.sendHead.sentBufs =
      s.sentBufs ++ (if (s.txRing s.tdh).addr ≠ 0 then [(s.txRing s.tdh).addr] else []) := by
  rw [TxState.sentBufs, TxState.sentBufs, (h.sendHead h0).pending_eq, h.pending_eq]
  have hm : TX_RING_SIZE - (n - 1) = TX_RING_SIZE - n + 1 := by
    have := h.le
    omega
  have hlast : s.txBufs ((s.tdt + (TX_RING_SIZE - n)) % TX_RING_SIZE) = (s.txRing s.tdh).addr := by
    have hpos : (s.tdt + (TX_RING_SIZE - n)) % TX_RING_SIZE = (s.tdh + 0) % TX_RING_SIZE := by
      have := h.le
      have := h.tdh_lt
      rw [h.tdt_eq]
      simp only [TX_RING_SIZE] at *
      omega
    rw [hpos]
    rw [(h.pending 0 h0).2, h.head_pos]
  simp only [TxState.sendHead]
  rw [hm, List.range_succ, List.map_append, List.filter_append, List.map_singleton, hlast]
  by_cases ha : (s.txRing s.tdh).addr = 0 <;> simp [ha]

/-- Every step keeps the invariant, and moves buffers between the views as a
queue does: the accepted buffer joins the pending ones, the sent buffer leaves
them for the sent part, the freed buffer leaves the sent part. -/
theorem txStep_laws (h : TxRep s n) (l : TxLabel) :
    (∃ n', TxRep (txStep s l).1 n') ∧
      s.pendingBufs ++ (txStep s l).2.flatMap TxEvent.acceptedBuf =
        (txStep s l).2.flatMap TxEvent.sentBuf ++ (txStep s l).1.pendingBufs ∧
      s.sentBufs ++ (txStep s l).2.flatMap TxEvent.sentPage =
        (txStep s l).2.flatMap TxEvent.freedBuf ++ (txStep s l).1.sentBufs := by
  cases l with
  | transmit buf len =>
      by_cases hn : n < TX_RING_SIZE
      · have heq : e1000Transmit s buf len = _ := e1000Transmit_ok (h.transmit_ok hn)
        simp only [txStep, heq]
        refine ⟨⟨n + 1, h.program hn buf len⟩, ?_, ?_⟩
        · rw [h.pendingBufs_program hn]
          by_cases hb : s.txBufs (s.tdt % TX_RING_SIZE) = 0 <;>
            simp [hb, TxEvent.acceptedBuf, TxEvent.sentBuf]
        · rw [h.sentBufs_program hn buf len]
          by_cases hb : s.txBufs (s.tdt % TX_RING_SIZE) = 0 <;>
            simp [hb, TxEvent.sentPage, TxEvent.freedBuf]
      · have h16 : n = TX_RING_SIZE := by
          have := h.le
          omega
        subst h16
        simp only [txStep, h.transmit_refused]
        exact ⟨⟨_, h⟩, by simp [TxEvent.acceptedBuf, TxEvent.sentBuf],
          by simp [TxEvent.sentPage, TxEvent.freedBuf]⟩
  | nic =>
      by_cases hidle : s.tdh = s.tdt
      · simp only [txStep, nicTransmit_idle hidle]
        exact ⟨⟨n, h⟩, by simp, by simp⟩
      · have h0 : 0 < n := by
          rcases Nat.eq_zero_or_pos n with h0 | h0
          · exact absurd ((h.tdh_eq_tdt_iff).mpr (.inl h0)) hidle
          · exact h0
        simp only [txStep, nicTransmit_busy hidle]
        refine ⟨⟨n - 1, h.sendHead h0⟩, ?_, ?_⟩
        · rw [h.pendingBufs_sendHead h0]
          simp [TxEvent.acceptedBuf, TxEvent.sentBuf]
        · rw [h.sentBufs_sendHead h0]
          by_cases ha : (s.txRing s.tdh).addr = 0 <;> simp [ha, TxEvent.sentPage, TxEvent.freedBuf]

/-- With sixteen pending nothing moves: the driver refuses and the NIC idles. -/
theorem txStep_full (h : TxRep s TX_RING_SIZE) (l : TxLabel) :
    (txStep s l).1 = s ∧ (txStep s l).2.flatMap TxEvent.acceptedBuf = [] ∧
      (txStep s l).2.flatMap TxEvent.sentBuf = [] := by
  cases l with
  | transmit buf len =>
      simp [txStep, h.transmit_refused, TxEvent.acceptedBuf, TxEvent.sentBuf]
  | nic =>
      simp [txStep, nicTransmit_idle ((h.tdh_eq_tdt_iff).mpr (.inr rfl))]

end TxRep

theorem txRep_run (ls : List TxLabel) : ∃ n, TxRep (run txStep txInit ls).1 n :=
  run_invariant txStep (fun s => ∃ n, TxRep s n) (fun _ l ⟨_, h⟩ => (h.txStep_laws l).1) ls
    txInit ⟨0, txRep_init⟩

theorem pendingBufs_txInit : txInit.pendingBufs = [] := by
  simp [TxState.pendingBufs, txRep_init.pending_eq]

theorem sentBufs_txInit : txInit.sentBufs = [] := by
  simp [TxState.sentBufs, txInit]

/-- The transmit ring is a FIFO queue: along every run from `e1000_init`, the
buffers of the calls that returned 0 are the buffers the NIC sent, in the same
order, followed by those still pending. -/
theorem txRing_fifo (ls : List TxLabel) :
    (run txStep txInit ls).2.flatMap TxEvent.acceptedBuf =
      (run txStep txInit ls).2.flatMap TxEvent.sentBuf ++ (run txStep txInit ls).1.pendingBufs := by
  have h := run_conservation txStep (fun s => ∃ n, TxRep s n)
    (fun _ l ⟨_, h⟩ => (h.txStep_laws l).1) TxState.pendingBufs TxEvent.acceptedBuf
    TxEvent.sentBuf (fun _ l ⟨_, h⟩ => (h.txStep_laws l).2.1) ls txInit ⟨0, txRep_init⟩
  rwa [pendingBufs_txInit, List.nil_append] at h

/-- `e1000_transmit` frees only what the NIC sent: along every run from
`e1000_init`, the buffers sent are the buffers freed, in the same order,
followed by those the ring still holds. -/
theorem txRing_frees_sent (ls : List TxLabel) :
    (run txStep txInit ls).2.flatMap TxEvent.sentPage =
      (run txStep txInit ls).2.flatMap TxEvent.freedBuf ++ (run txStep txInit ls).1.sentBufs := by
  have h := run_conservation txStep (fun s => ∃ n, TxRep s n)
    (fun _ l ⟨_, h⟩ => (h.txStep_laws l).1) TxState.sentBufs TxEvent.sentPage
    TxEvent.freedBuf (fun _ l ⟨_, h⟩ => (h.txStep_laws l).2.2) ls txInit ⟨0, txRep_init⟩
  rwa [sentBufs_txInit, List.nil_append] at h

/-- In every reachable state `e1000_transmit` accepts a buffer exactly when
fewer than sixteen descriptors are pending: it never reprograms a pending
descriptor, and refuses only a full ring. -/
theorem txRing_accepts_iff (ls : List TxLabel) (buf : Addr) (len : Int) :
    (e1000Transmit (run txStep txInit ls).1 buf len).2.1 = 0 ↔
      (run txStep txInit ls).1.pending < TX_RING_SIZE := by
  obtain ⟨n, h⟩ := txRep_run ls
  rw [h.pending_eq]
  by_cases hn : n < TX_RING_SIZE
  · simp [e1000Transmit_ok (h.transmit_ok hn), hn]
  · have h16 : n = TX_RING_SIZE := by
      have := h.le
      omega
    subst h16
    simp [h.transmit_refused]

/-- In every reachable state the NIC sends exactly when one to fifteen
descriptors are pending: a full ring looks empty to it. -/
theorem txRing_sends_iff (ls : List TxLabel) :
    (nicTransmit (run txStep txInit ls).1).isSome = true ↔
      0 < (run txStep txInit ls).1.pending ∧ (run txStep txInit ls).1.pending < TX_RING_SIZE := by
  obtain ⟨n, h⟩ := txRep_run ls
  rw [h.pending_eq]
  by_cases hidle : (run txStep txInit ls).1.tdh = (run txStep txInit ls).1.tdt
  · rw [nicTransmit_idle hidle]
    rcases (h.tdh_eq_tdt_iff).mp hidle with rfl | rfl <;> simp
  · rw [nicTransmit_busy hidle]
    have hn : ¬(n = 0 ∨ n = TX_RING_SIZE) := fun hn => hidle ((h.tdh_eq_tdt_iff).mpr hn)
    have := h.le
    simp only [Option.isSome_some, true_iff]
    omega

end E1000
end Xv6Net
