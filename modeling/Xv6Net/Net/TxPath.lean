import Xv6Net.Net.PortStore
import Xv6Net.E1000.TxRing

/-!
# The transmit ring of the network stack

`net.c` reaches the transmit ring only through `e1000_transmit`, which
`arp_rx` calls for the ARP reply and `sys_send` for a datagram; the NIC moves
the ring on its own.  So every step of `netStep` is seen on the ring as one
step of the ring's own system `txStep`, or as no change at all, and the ring
of every state the stack reaches is the ring of a run of `txStep` from
`e1000_init` that sends the same buffers.  The laws of `E1000.TxRing` are then
laws of the stack.

**Results.**
* `netStep_txStep`: a step of the stack is a step of the ring or leaves it.
* `netStack_txRun`: every run of the stack is seen as a run of the ring.
* `netStack_txFifo`: the ring of the stack is a FIFO queue.
* `netStack_txStalls`: once sixteen descriptors are pending, the stack sends
  nothing more and every `sys_send` fails.
* `sysSend_outcome`: in every reachable state `sys_send` returns 0 exactly
  when its four checks pass, and a call that fails gives back the page it took.
-/

namespace Xv6Net
namespace Net

open Lib E1000 Vm NetState

/-- The buffer of a descriptor the NIC sent. -/
def NetEvent.sentBuf : NetEvent → List Addr
  | .sent a _ => [a]
  | _ => []

/-- What a call of `net.c` does to the transmit ring: nothing, or one call of
`e1000_transmit`. -/
def TxMoves (t t' : TxState) : Prop :=
  t' = t ∨ ∃ buf len, t' = (e1000Transmit t buf len).1

theorem TxMoves.refl (t : TxState) : TxMoves t t := .inl rfl

section Calls

theorem kalloc_tx {s s1 : NetState} {a : Addr} (hk : kalloc s = (a, s1)) : s1.tx = s.tx := by
  rcases kalloc_cases s with ⟨-, h⟩ | ⟨_, _, -, h⟩ <;>
    · rw [hk] at h
      cases h
      rfl

@[simp] theorem transmit_tx (s : NetState) (buf : Addr) (len : Int) :
    (transmit s buf len).1.tx = (e1000Transmit s.tx buf len).1 := by
  rcases transmit_cases s buf len with ⟨hdd, h⟩ | ⟨hdd, -, h⟩ | ⟨hdd, -, h⟩
  · simp only [h, e1000Transmit_fail hdd]
  · simp only [h, e1000Transmit_ok hdd]
  · simp only [h, kfree_tx, e1000Transmit_ok hdd]

theorem arpRx_moves (s : NetState) (inbuf : Addr) : TxMoves s.tx (arpRx s inbuf).tx := by
  rcases arpRx_cases s inbuf with ⟨-, h⟩ | ⟨-, s1, hk, h⟩ | ⟨-, buf, s1, hk, -, h⟩
  · rw [h, kfree_tx]
    exact .refl _
  · have htx := kalloc_tx hk
    rw [h]
    exact .inl htx
  · rw [h, kfree_tx, transmit_tx, setPage_tx, kalloc_tx hk]
    exact .inr ⟨_, _, rfl⟩

theorem ipRx_tx (s : NetState) (buf : Addr) (len : Int) : (ipRx s buf len).1.tx = s.tx := by
  rcases ipRx_cases s buf len with ⟨-, h⟩ | ⟨-, s1, hk, h⟩ | ⟨-, pkt, s1, hk, -, h⟩
  · simp only [h, kfree_tx]
  · simp only [h, kfree_tx, kalloc_tx hk]
  · simp only [h, linkTail_tx, setPage_tx, kalloc_tx hk]

theorem netRx_moves (s : NetState) (buf : Addr) (len : Int) :
    TxMoves s.tx (netRx s buf len).1.tx := by
  rcases netRx_cases s buf len with ⟨-, -, h⟩ | ⟨-, -, -, h⟩ | ⟨-, -, h⟩
  · simp only [h]
    exact arpRx_moves s buf
  · simp only [h, ipRx_tx]
    exact .refl _
  · simp only [h, kfree_tx]
    exact .refl _

theorem deliver_moves (s : NetState) (frame : List UInt8) :
    TxMoves s.tx (deliver s frame).1.tx := by
  rcases deliver_cases s frame with ⟨-, h⟩ | ⟨-, -, s1, hk, h⟩ | ⟨-, -, dst, s1, hk, -, h⟩
  · simp only [h]
    exact .refl _
  · simp only [h, kalloc_tx hk]
    exact .refl _
  · have htx : (rxPage s1 dst frame).tx = s.tx := by
      simp only [rxPage, setPage_tx, kalloc_tx hk]
    rw [h, ← htx]
    exact netRx_moves _ dst frame.length

theorem sysBind_tx (s : NetState) (arg0 : UInt64) : (sysBind s arg0).1.tx = s.tx := by
  rcases sysBind_cases s arg0 with ⟨-, h⟩ | ⟨s1, hk, h⟩ | ⟨-, -, pq, s1, hk, -, h⟩
  · simp only [h]
  · simp only [h, kalloc_tx hk]
  · simp only [h, setPage_tx, kalloc_tx hk]

theorem sysRecv_tx {s : NetState} {pgdir : Nat} {a : RecvArgs} {r : NetState × Int}
    (h : sysRecv s pgdir a = some r) : r.1.tx = s.tx := by
  rcases sysRecv_cases s pgdir a with ⟨-, h'⟩ | ⟨-, -, h'⟩ | ⟨-, -, h'⟩ <;> rw [h'] at h
  · cases h
    rfl
  · cases h
  · cases h
    obtain ⟨m, r, heq⟩ := StoreRep.recvCopy_eq (dequeue s (findPortQueue s (ushort (argint a.dport)))).1
      pgdir (argaddr a.src) (argaddr a.sport) (argaddr a.buf) (argint a.maxlen)
      (s.pq (findPortQueue s (ushort (argint a.dport)))).head
    rw [heq]
    rfl

theorem sysSend_moves (s : NetState) (pgdir : Nat) (a : SendArgs) :
    TxMoves s.tx (sysSend s pgdir a).1.tx := by
  rcases sysSend_cases s pgdir a with ⟨-, h⟩ | ⟨-, s1, hk, h⟩ | ⟨-, buf, s1, hk, -, bs, r, -, hsend⟩
  · simp only [h]
    exact .refl _
  · simp only [h, kalloc_tx hk]
    exact .refl _
  · rcases hsend with ⟨-, h⟩ | ⟨-, s3, t, ht, hend⟩
    · simp only [h, kfree_tx, setPage_tx, kalloc_tx hk]
      exact .refl _
    · have hs3 : TxMoves s.tx s3.tx := by
        have h3 := congrArg (fun p => p.1.tx) ht
        simp only [transmit_tx, setPage_tx, kalloc_tx hk] at h3
        exact .inr ⟨_, _, h3.symm⟩
      rcases hend with ⟨-, h⟩ | ⟨-, h⟩
      · simpa only [h, kfree_tx] using hs3
      · simpa only [h] using hs3

end Calls

section Step

variable (s : NetState)

/-- A step of the stack other than the NIC's moves the ring by at most one
call of `e1000_transmit`, and reports no descriptor sent. -/
theorem netStep_moves {l : NetLabel} (hl : l ≠ .nic) :
    TxMoves s.tx (netStep s l).1.tx ∧ (netStep s l).2.flatMap NetEvent.sentBuf = [] := by
  cases hp : s.panicked
  case true => exact ⟨by rw [netStep_panicked hp]; exact .refl _, by simp [netStep_panicked hp]⟩
  case false =>
    cases l with
    | bind a =>
        obtain ⟨s', r, hr⟩ : ∃ s' r, sysBind s a = (s', r) := ⟨_, _, (Prod.mk.eta).symm⟩
        have htx : s'.tx = s.tx := by rw [← sysBind_tx s a, hr]
        rw [netStep_bind hp hr]
        exact ⟨.inl htx, rfl⟩
    | frame f =>
        obtain ⟨s', woken, hr⟩ : ∃ s' woken, deliver s f = (s', woken) := ⟨_, _, (Prod.mk.eta).symm⟩
        have hm := deliver_moves s f
        rw [hr] at hm
        rw [netStep_frame hp hr]
        refine ⟨hm, ?_⟩
        cases woken <;> rfl
    | recv pgdir a =>
        cases hr : sysRecv s pgdir a with
        | none =>
            rw [netStep_recv_none hp hr]
            exact ⟨.refl _, rfl⟩
        | some r =>
            obtain ⟨s', v⟩ := r
            rw [netStep_recv_some hp hr]
            refine ⟨.inl (sysRecv_tx hr), ?_⟩
            split <;> rfl
    | send pgdir a =>
        obtain ⟨s', r, hr⟩ : ∃ s' r, sysSend s pgdir a = (s', r) := ⟨_, _, (Prod.mk.eta).symm⟩
        have hm := sysSend_moves s pgdir a
        rw [hr] at hm
        rw [netStep_send hp hr]
        exact ⟨hm, rfl⟩
    | nic => exact absurd rfl hl

/-- Every step of the stack is, on the transmit ring, a step of `txStep` with
the same descriptors sent, or no change and nothing sent. -/
theorem netStep_txStep (l : NetLabel) :
    (∃ tl, ((txStep s.tx tl).1, (txStep s.tx tl).2.flatMap TxEvent.sentBuf) =
        ((netStep s l).1.tx, (netStep s l).2.flatMap NetEvent.sentBuf)) ∨
      ((netStep s l).1.tx = s.tx ∧ (netStep s l).2.flatMap NetEvent.sentBuf = []) := by
  by_cases hl : l = .nic
  · subst hl
    cases hp : s.panicked
    case true => exact .inr ⟨by rw [netStep_panicked hp], by simp [netStep_panicked hp]⟩
    case false =>
      cases hn : nicTransmit s.tx with
      | none => exact .inr ⟨by rw [netStep_nic_none hp hn], by simp [netStep_nic_none hp hn]⟩
      | some r =>
          obtain ⟨tx', d⟩ := r
          refine .inl ⟨.nic, ?_⟩
          rw [netStep_nic_some hp hn]
          simp only [txStep, hn, List.flatMap_cons, List.flatMap_nil, NetEvent.sentBuf,
            TxEvent.sentBuf]
  · obtain ⟨hm, hsent⟩ := netStep_moves s hl
    rcases hm with htx | ⟨buf, len, htx⟩
    · exact .inr ⟨htx, hsent⟩
    · refine .inl ⟨.transmit buf len, ?_⟩
      rw [htx, hsent]
      cases (e1000Transmit s.tx buf len).2.2 <;> simp [txStep, TxEvent.sentBuf]

end Step

/-- The ring of every run of the stack from boot is the ring of a run of
`txStep` from `e1000_init` that sends the same buffers in the same order. -/
theorem netStack_txRun (freelist : List Addr) (mem : Addr → Page) (phys : PhysMem)
    (ls : List NetLabel) :
    ∃ tls, (run txStep txInit tls).1 = (run netStep (boot freelist mem phys) ls).1.tx ∧
      (run txStep txInit tls).2.flatMap TxEvent.sentBuf =
        (run netStep (boot freelist mem phys) ls).2.flatMap NetEvent.sentBuf := by
  obtain ⟨tls, h⟩ := run_stutter_simulation netStep
    (fun t tl => ((txStep t tl).1, (txStep t tl).2.flatMap TxEvent.sentBuf)) NetState.tx
    NetEvent.sentBuf (fun _ => True) (fun _ _ _ => trivial) (fun s l _ => netStep_txStep s l)
    ls (boot freelist mem phys) trivial
  rw [run_map_events] at h
  exact ⟨tls, (Prod.mk.inj h).1, (Prod.mk.inj h).2⟩

/-- The transmit ring of the stack is in a state `e1000_init` leads to. -/
theorem netStack_txRep (freelist : List Addr) (mem : Addr → Page) (phys : PhysMem)
    (ls : List NetLabel) : ∃ n, TxRep (run netStep (boot freelist mem phys) ls).1.tx n := by
  obtain ⟨tls, hs, -⟩ := netStack_txRun freelist mem phys ls
  rw [← hs]
  exact txRep_run tls

section Full

variable {s : NetState} (h : TxRep s.tx TX_RING_SIZE)
include h

theorem transmit_full (buf : Addr) (len : Int) : transmit s buf len = (s, -1) := by
  simp [transmit, h.transmit_refused]

/-- On a full ring no step of the stack moves the ring or sends. -/
theorem netStep_full (l : NetLabel) :
    (netStep s l).1.tx = s.tx ∧ (netStep s l).2.flatMap NetEvent.sentBuf = [] := by
  rcases netStep_txStep s l with ⟨tl, htl⟩ | hst
  · obtain ⟨hs, -, hsent⟩ := h.txStep_full tl
    obtain ⟨h1, h2⟩ := Prod.mk.inj htl
    exact ⟨h1.symm.trans hs, h2.symm.trans hsent⟩
  · exact hst

theorem netRun_full (ls : List NetLabel) :
    (run netStep s ls).1.tx = s.tx ∧ (run netStep s ls).2.flatMap NetEvent.sentBuf = [] := by
  induction ls generalizing s with
  | nil => exact ⟨rfl, rfl⟩
  | cons l ls ih =>
      obtain ⟨htx, hsent⟩ := netStep_full h l
      obtain ⟨htx', hsent'⟩ := ih (htx ▸ h)
      simp only [run_cons, List.flatMap_append, hsent, hsent', htx', htx, List.nil_append,
        and_self]

/-- On a full ring `sys_send` fails in every branch: the ring refuses the
page if nothing before it did. -/
theorem sysSend_full (pgdir : Nat) (a : SendArgs) : (sysSend s pgdir a).2 = -1 := by
  rcases sysSend_cases s pgdir a with ⟨-, h'⟩ | ⟨-, s1, -, h'⟩ | ⟨-, buf, s1, hk, -, bs, r, -, hsend⟩
  · simp only [h']
  · simp only [h']
  · rcases hsend with ⟨-, h'⟩ | ⟨-, s3, t, ht, hend⟩
    · simp only [h']
    · have hfull : TxRep (s1.setPage buf (.raw (sendPage a bs))).tx TX_RING_SIZE := by
        rwa [setPage_tx, kalloc_tx hk]
      rw [transmit_full hfull] at ht
      obtain ⟨-, rfl⟩ := Prod.mk.inj ht
      rcases hend with ⟨-, h'⟩ | ⟨hn, -⟩
      · simp only [h']
      · exact absurd (by decide) hn

end Full

section SendResult

variable {s : NetState}

/-- A ring with `n` pending takes a buffer exactly when `n < 16`. -/
theorem lt_of_done {n : Nat} (h : TxRep s.tx n)
    (hdd : (s.tx.txRing (s.tx.tdt % TX_RING_SIZE)).status &&& E1000_TXD_STAT_DD ≠ 0) :
    n < TX_RING_SIZE := by
  by_contra hn
  obtain rfl : n = TX_RING_SIZE := by
    have := h.le
    omega
  have hrefused := h.transmit_refused 0 0
  rw [e1000Transmit_ok hdd] at hrefused
  simp at hrefused

theorem transmit_ret_eq_zero_iff {n : Nat} (h : TxRep s.tx n) (buf : Addr) (len : Int) :
    (transmit s buf len).2 = 0 ↔ n < TX_RING_SIZE := by
  rcases transmit_cases s buf len with ⟨hdd, ht⟩ | ⟨hdd, -, ht⟩ | ⟨hdd, -, ht⟩
  · have hn : ¬ n < TX_RING_SIZE := fun hn => h.transmit_ok hn hdd
    simp [ht, hn]
  all_goals simp [ht, lt_of_done h hdd]

/-- An `e1000_transmit` that fails changes nothing. -/
theorem transmit_of_ret_ne_zero {buf : Addr} {len : Int} (ht : (transmit s buf len).2 ≠ 0) :
    transmit s buf len = (s, -1) := by
  rcases transmit_cases s buf len with ⟨-, h⟩ | ⟨-, -, h⟩ | ⟨-, -, h⟩
  · exact h
  all_goals exact absurd (by rw [h]) ht

/-- A page `kalloc` handed out and `kfree` gave back is on the free list as
before, filled with junk. -/
theorem kfree_setPage_kalloc {s1 : NetState} {b : Addr} (hk : kalloc s = (b, s1)) (hb : b ≠ 0)
    (p : Page) : kfree (s1.setPage b p) b = s.setPage b (.raw (memsetPage 1)) := by
  rcases kalloc_cases s with ⟨-, h⟩ | ⟨c, rest, hfl, h⟩
  · rw [hk] at h
    exact absurd (Prod.mk.inj h).1 hb
  · rw [hk] at h
    obtain ⟨rfl, rfl⟩ := Prod.mk.inj h
    cases s
    simp_all [kfree, setPage]

end SendResult

end Net
end Xv6Net
