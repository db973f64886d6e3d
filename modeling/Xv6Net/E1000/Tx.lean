import Xv6Net.Kernel.Defs
import Xv6Net.Lib.Run

/-!
# The E1000 transmit ring

The transmit half of `e1000.c`: the descriptor ring `tx_ring`, the buffer
table `tx_bufs`, the tail register TDT written by the driver, and the head
register TDH owned by the NIC.

**Driver.**  `e1000Transmit` is `e1000_transmit`: it reads TDT, refuses the
slot when its DD bit is clear, otherwise frees the buffer the slot held,
programs the descriptor, remembers the new buffer and advances TDT.

**NIC.**  `nicTransmit` is one step of the device: when TDH ≠ TDT it sends
descriptor TDH, sets its DD bit and advances TDH.

**Results.**
* `e1000Transmit_fail`: a refused call changes nothing.
* `txRing_wraps_onto_head`: sixteen successful calls after `e1000_init`
  without a NIC step bring TDT back onto TDH; from then on the ring looks
  empty to the NIC and full to the driver, so none of the sixteen buffers is
  ever sent, whatever happens next.
-/

namespace Xv6Net
namespace E1000

open Lib

/-- `TX_RING_SIZE`. -/
def TX_RING_SIZE : Nat := 16

/-- `E1000_TXD_STAT_DD`. -/
def E1000_TXD_STAT_DD : UInt8 := 0x01

/-- `E1000_TXD_CMD_EOP`. -/
def E1000_TXD_CMD_EOP : UInt8 := 0x01

/-- `E1000_TXD_CMD_RS`. -/
def E1000_TXD_CMD_RS : UInt8 := 0x08

/-- `struct tx_desc`, the fields the driver and the NIC use. -/
structure TxDesc where
  addr : Nat
  length : Nat
  cmd : UInt8
  status : UInt8
deriving DecidableEq

/-- Transmit side of the driver and the device. -/
structure TxState where
  txRing : Nat → TxDesc
  txBufs : Nat → Addr
  tdt : Nat
  tdh : Nat

/-- The descriptor's DD bit is set. -/
def TxDesc.done (d : TxDesc) : Bool :=
  d.status &&& E1000_TXD_STAT_DD != 0

/-- The transmit part of `e1000_init`: every descriptor done, no buffers,
TDH = TDT = 0. -/
def txInit : TxState where
  txRing := fun _ => { addr := 0, length := 0, cmd := 0, status := E1000_TXD_STAT_DD }
  txBufs := fun _ => 0
  tdt := 0
  tdh := 0

/-- Programming slot `t` with buffer `buf` of `len` bytes, remembering the
buffer and advancing TDT past the slot. -/
def TxState.program (s : TxState) (t : Nat) (buf : Addr) (len : Int) : TxState :=
  { s with
    txRing := Function.update s.txRing t
      { s.txRing t with addr := buf, length := toUShort len,
                        cmd := E1000_TXD_CMD_EOP ||| E1000_TXD_CMD_RS, status := 0 },
    txBufs := Function.update s.txBufs t buf,
    tdt := (t + 1) % TX_RING_SIZE }

/-- `e1000_transmit(buf, len)`: the new state, the return value, and the
buffer it passes to `kfree`. -/
def e1000Transmit (s : TxState) (buf : Addr) (len : Int) : TxState × Int × Option Addr :=
  let t := s.tdt % TX_RING_SIZE
  if (s.txRing t).status &&& E1000_TXD_STAT_DD = 0 then
    (s, -1, none)
  else
    let freed := if s.txBufs t ≠ 0 then some (s.txBufs t) else none
    (s.program t buf len, 0, freed)

/-- One step of the NIC: enabled when TDH ≠ TDT, it sends descriptor TDH,
sets its DD bit and advances TDH. -/
def nicTransmit (s : TxState) : Option (TxState × TxDesc) :=
  if s.tdh = s.tdt then none
  else
    let d := s.txRing s.tdh
    some ({ s with txRing := Function.update s.txRing s.tdh
                     { d with status := d.status ||| E1000_TXD_STAT_DD },
                   tdh := (s.tdh + 1) % TX_RING_SIZE }, d)

theorem e1000Transmit_fail {s : TxState} {buf : Addr} {len : Int}
    (h : (s.txRing (s.tdt % TX_RING_SIZE)).status &&& E1000_TXD_STAT_DD = 0) :
    e1000Transmit s buf len = (s, -1, none) := by
  simp [e1000Transmit, h]

theorem e1000Transmit_ok {s : TxState} {buf : Addr} {len : Int}
    (h : (s.txRing (s.tdt % TX_RING_SIZE)).status &&& E1000_TXD_STAT_DD ≠ 0) :
    e1000Transmit s buf len =
      (s.program (s.tdt % TX_RING_SIZE) buf len, 0,
        if s.txBufs (s.tdt % TX_RING_SIZE) ≠ 0 then some (s.txBufs (s.tdt % TX_RING_SIZE))
        else none) := by
  simp [e1000Transmit, h]

theorem nicTransmit_idle {s : TxState} (h : s.tdh = s.tdt) : nicTransmit s = none := by
  simp [nicTransmit, h]

/-- What drives the transmit side: a driver call or a NIC step. -/
inductive TxLabel
  | transmit (buf : Addr) (len : Int)
  | nic

/-- What the transmit side reports. -/
inductive TxEvent
  | returned (buf : Addr) (r : Int)
  | freed (buf : Addr)
  | sent (addr : Nat) (length : Nat)
deriving DecidableEq

/-- One step of the transmit system. -/
def txStep (s : TxState) : TxLabel → TxState × List TxEvent
  | .transmit buf len =>
      let r := e1000Transmit s buf len
      (r.1, .returned buf r.2.1 :: r.2.2.toList.map .freed)
  | .nic =>
      match nicTransmit s with
      | none => (s, [])
      | some (s', d) => (s', [.sent d.addr d.length])

/-- The first `k` of sixteen back-to-back calls of `e1000_transmit`, with
buffers `1, …, k`. -/
def sends (k : Nat) : List TxLabel :=
  (List.range k).map fun i => .transmit (i + 1) 42

/-- The state after `sends k`, for `k ≤ 16`: slots below `k` hold buffers
`1, …, k`, all pending. -/
def txAfter (k : Nat) : TxState where
  txRing := fun i =>
    if i < k then
      { addr := i + 1, length := 42, cmd := E1000_TXD_CMD_EOP ||| E1000_TXD_CMD_RS, status := 0 }
    else txInit.txRing i
  txBufs := fun i => if i < k then i + 1 else 0
  tdt := k % TX_RING_SIZE
  tdh := 0

theorem program_txAfter {k : Nat} (hk : k < 16) :
    (txAfter k).program k (k + 1) 42 = txAfter (k + 1) := by
  simp only [TxState.program, txAfter, TxState.mk.injEq, and_true]
  constructor
  · funext i
    by_cases hi : i = k
    · subst hi
      simp [toUShort]
    · rw [Function.update_of_ne hi]
      by_cases hlt : i < k
      · simp [hlt, show i < k + 1 by omega]
      · simp [hlt, show ¬ i < k + 1 by omega]
  · funext i
    by_cases hi : i = k
    · subst hi
      simp
    · rw [Function.update_of_ne hi]
      by_cases hlt : i < k
      · simp [hlt, show i < k + 1 by omega]
      · simp [hlt, show ¬ i < k + 1 by omega]

theorem txStep_txAfter {k : Nat} (hk : k < 16) :
    txStep (txAfter k) (.transmit (k + 1) 42) = (txAfter (k + 1), [.returned (k + 1) 0]) := by
  have hmod : (txAfter k).tdt % TX_RING_SIZE = k := by
    simp [txAfter, TX_RING_SIZE, Nat.mod_eq_of_lt hk]
  have hdone :
      ((txAfter k).txRing ((txAfter k).tdt % TX_RING_SIZE)).status &&& E1000_TXD_STAT_DD ≠ 0 := by
    rw [hmod]
    simp [txAfter, txInit, E1000_TXD_STAT_DD]
  have hfree : (txAfter k).txBufs k = 0 := by
    simp [txAfter]
  simp only [txStep, e1000Transmit_ok hdone]
  rw [hmod, hfree, program_txAfter hk]
  simp

theorem run_sends {k : Nat} (hk : k ≤ 16) :
    run txStep txInit (sends k) =
      (txAfter k, (List.range k).map fun i => TxEvent.returned (i + 1) 0) := by
  induction k with
  | zero =>
      simp only [sends, List.range_zero, List.map_nil, run_nil, Prod.mk.injEq, and_true]
      rfl
  | succ k ih =>
      rw [sends, List.range_succ, List.map_append, run_append, ← sends, ih (by omega)]
      simp [txStep_txAfter (show k < 16 by omega)]

/-- The state after sixteen back-to-back calls. -/
def txWrapped : TxState :=
  txAfter 16

/-- In `txWrapped` the tail is back on the head and slot 0 is pending. -/
theorem txWrapped_stuck :
    txWrapped.tdt = txWrapped.tdh ∧
      (txWrapped.txRing (txWrapped.tdt % TX_RING_SIZE)).status &&& E1000_TXD_STAT_DD = 0 := by
  decide

/-- From `txWrapped` every step leaves the state as it is and emits at most a
refusal. -/
theorem txStep_txWrapped (l : TxLabel) :
    (txStep txWrapped l).1 = txWrapped ∧
      ∀ e ∈ (txStep txWrapped l).2, ∃ buf, e = .returned buf (-1) := by
  obtain ⟨hidle, hfull⟩ := txWrapped_stuck
  cases l with
  | transmit buf len =>
      simp [txStep, e1000Transmit_fail hfull]
  | nic =>
      simp [txStep, nicTransmit_idle hidle.symm]

theorem run_txWrapped (ls : List TxLabel) :
    (run txStep txWrapped ls).1 = txWrapped ∧
      ∀ e ∈ (run txStep txWrapped ls).2, ∃ buf, e = .returned buf (-1) := by
  induction ls with
  | nil => simp
  | cons l ls ih =>
      obtain ⟨hs, he⟩ := txStep_txWrapped l
      simp only [run_cons, hs, List.mem_append]
      refine ⟨ih.1, ?_⟩
      rintro e (he' | he')
      · exact he e he'
      · exact ih.2 e he'

/-- Sixteen successful transmissions whose buffers are never sent: all
sixteen calls return 0, and after them no run ever emits a `sent` event; every
later call of `e1000_transmit` returns -1. -/
theorem txRing_wraps_onto_head :
    run txStep txInit (sends 16) =
        (txWrapped, (List.range 16).map (fun i => TxEvent.returned (i + 1) 0)) ∧
      ∀ ls : List TxLabel, ∀ e ∈ (run txStep txWrapped ls).2,
        ∃ buf, e = .returned buf (-1) :=
  ⟨run_sends le_rfl, fun ls => (run_txWrapped ls).2⟩

end E1000
end Xv6Net
