import Xv6Net.Net.Send
import Xv6Net.Lib.Run

/-!
# The network stack as a transition system

Each step is one system call run to completion, the delivery of one received
frame by `e1000_recv`, or one step of the NIC's transmit engine.  A `recv` on a
bound port whose queue is empty does not complete: the caller sleeps, and the
step changes nothing.  After a `panic` no step changes anything.

The events record what the calls return and, for the queues, which datagram
`ip_rx` appended and which one `sys_recv` removed.  A datagram is what
`sys_recv` can hand to user space: source address and port, payload length,
and the first 1500 payload bytes of its page.

**The equations of `netStep`, one for each label, over the results of the.**
call destructured into variables (so that no proof has to see through a
projection of a call).
-/

namespace Xv6Net
namespace Net

open Lib E1000 Vm NetState

/-- A queued datagram, as `sys_recv` can observe it. -/
structure Datagram where
  srcIp : UInt32
  srcPort : UInt16
  payloadLen : Int
  data : List UInt8
deriving DecidableEq

/-- The datagram held by the node at `a`. -/
def datagramOf (s : NetState) (a : Addr) : Datagram :=
  let p := s.pkt a
  { srcIp := p.srcIp, srcPort := p.srcPort, payloadLen := p.payloadLen,
    data := slice (s.bytes p.fullbuf) p.payload 1500 }

/-- What drives the network stack. -/
inductive NetLabel
  | bind (arg0 : UInt64)
  | frame (bytes : List UInt8)
  | recv (pgdir : Nat) (args : RecvArgs)
  | send (pgdir : Nat) (args : SendArgs)
  | nic

/-- What the network stack reports. -/
inductive NetEvent
  | returned (r : Int)
  | accepted (port : UInt16) (d : Datagram)
  | dequeued (port : UInt16) (d : Datagram)
  | sent (addr : Nat) (length : Nat)
deriving DecidableEq

/-- The datagram `ip_rx` appended to queue `pq`, now its tail. -/
def acceptedAt (s : NetState) (pq : Addr) : NetEvent :=
  .accepted (s.pq pq).port (datagramOf s (s.pq pq).tail)

/-- One step of the network stack. -/
def netStep (s : NetState) (l : NetLabel) : NetState × List NetEvent :=
  if s.panicked then (s, [])
  else
    match l with
    | .bind a =>
        let r := sysBind s a
        (r.1, [.returned r.2])
    | .frame f =>
        let r := deliver s f
        (r.1, r.2.toList.map (acceptedAt r.1))
    | .recv pgdir a =>
        match sysRecv s pgdir a with
        | none => (s, [])
        | some r =>
            let pq := findPortQueue s (ushort (argint a.dport))
            let deq := if pq = 0 then []
              else [.dequeued (s.pq pq).port (datagramOf s (s.pq pq).head)]
            (r.1, deq ++ [.returned r.2])
    | .send pgdir a =>
        let r := sysSend s pgdir a
        (r.1, [.returned r.2])
    | .nic =>
        match nicTransmit s.tx with
        | none => (s, [])
        | some (tx', d) => ({ s with tx := tx' }, [.sent d.addr d.length])

section NetStepEq

variable {s : NetState}

theorem netStep_panicked (hp : s.panicked = true) (l : NetLabel) : netStep s l = (s, []) := by
  simp [netStep, hp]

variable (hp : s.panicked = false)
include hp

theorem netStep_bind {a : UInt64} {s' : NetState} {r : Int} (hr : sysBind s a = (s', r)) :
    netStep s (.bind a) = (s', [.returned r]) := by
  simp [netStep, hp, hr]

theorem netStep_frame {f : List UInt8} {s' : NetState} {woken : Option Addr}
    (hr : deliver s f = (s', woken)) :
    netStep s (.frame f) = (s', woken.toList.map (acceptedAt s')) := by
  simp [netStep, hp, hr]

theorem netStep_recv_none {pgdir : Nat} {a : RecvArgs} (hr : sysRecv s pgdir a = none) :
    netStep s (.recv pgdir a) = (s, []) := by
  simp [netStep, hp, hr]

theorem netStep_recv_some {pgdir : Nat} {a : RecvArgs} {s' : NetState} {r : Int}
    (hr : sysRecv s pgdir a = some (s', r)) :
    netStep s (.recv pgdir a) =
      (s', (if findPortQueue s (ushort (argint a.dport)) = 0 then []
        else [.dequeued (s.pq (findPortQueue s (ushort (argint a.dport)))).port
          (datagramOf s (s.pq (findPortQueue s (ushort (argint a.dport)))).head)]) ++
        [.returned r]) := by
  simp [netStep, hp, hr]

theorem netStep_send {pgdir : Nat} {a : SendArgs} {s' : NetState} {r : Int}
    (hr : sysSend s pgdir a = (s', r)) :
    netStep s (.send pgdir a) = (s', [.returned r]) := by
  simp [netStep, hp, hr]

theorem netStep_nic_none (hn : nicTransmit s.tx = none) : netStep s .nic = (s, []) := by
  simp [netStep, hp, hn]

theorem netStep_nic_some {tx' : TxState} {d : TxDesc} (hn : nicTransmit s.tx = some (tx', d)) :
    netStep s .nic = ({ s with tx := tx' }, [.sent d.addr d.length]) := by
  simp [netStep, hp, hn]

end NetStepEq

/-- The state after boot: the free list built by `kinit`, no port bound, the
transmit ring as `e1000_init` leaves it, user memory `phys`. -/
def boot (freelist : List Addr) (mem : Addr → Page) (phys : PhysMem) : NetState where
  mem := mem
  freelist := freelist
  portList := 0
  seenArp := false
  panicked := false
  tx := txInit
  phys := phys

end Net
end Xv6Net
