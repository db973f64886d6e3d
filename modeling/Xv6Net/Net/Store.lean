import Xv6Net.Lib.ListSeg
import Xv6Net.E1000.Tx
import Xv6Net.Vm.Walk

/-!
# The network stack of `net.c`

The kernel state of the network code and the functions of `net.c` that change
it: the page allocator calls, `find_port_queue`, `sys_bind`, `ip_rx`,
`arp_rx`, `net_rx`, the receive side of `sys_recv`, and the delivery of a
frame by `e1000_recv` (copy into a fresh page, then `net_rx`).

**Memory.**  `mem` maps each page the network code obtained from `kalloc` to
what it holds: raw bytes (a frame), a `struct port_queue` or a
`struct udp_pkt`.  `freelist` is `kmem.freelist`; `kalloc` pops its head and
`kfree` fills the page with junk and pushes it.  User memory and page tables
are the physical memory `phys` of `Vm`.  `panicked` records a `panic`, after
which nothing runs.

**Loops.**  `find_port_queue` walks `port_list` through `next`; the model
bounds the walk by 65536 records, the number of distinct ports, and the store
invariant shows that the bound is never reached.
-/

namespace Xv6Net
namespace Net

open Lib E1000 Vm

/-- `MAX_QUEUED_PER_PORT`. -/
def MAX_QUEUED_PER_PORT : Int := 16

/-- `struct udp_pkt`; `payload` is the offset of the payload in `fullbuf`. -/
structure UdpPkt where
  fullbuf : Addr
  payload : Nat
  payloadLen : Int
  srcIp : UInt32
  srcPort : UInt16
  next : Addr
deriving DecidableEq, Inhabited

/-- `struct port_queue`. -/
structure PortQueue where
  port : UInt16
  head : Addr
  tail : Addr
  count : Int
  next : Addr
deriving DecidableEq, Inhabited

/-- What a page obtained from `kalloc` holds. -/
inductive Page
  | raw (b : Bytes)
  | portQueue (q : PortQueue)
  | udpPkt (p : UdpPkt)

/-- The kernel state the network code reads and writes. -/
structure NetState where
  mem : Addr → Page
  freelist : List Addr
  portList : Addr
  seenArp : Bool
  panicked : Bool
  tx : TxState
  phys : PhysMem

namespace NetState

/-- The `struct port_queue` at `a`, if `a` holds one. -/
def pqAt (s : NetState) (a : Addr) : Option PortQueue :=
  match s.mem a with
  | .portQueue q => some q
  | _ => none

/-- The `struct udp_pkt` at `a`, if `a` holds one. -/
def pktAt (s : NetState) (a : Addr) : Option UdpPkt :=
  match s.mem a with
  | .udpPkt p => some p
  | _ => none

/-- The fields read through a `struct port_queue *`. -/
def pq (s : NetState) (a : Addr) : PortQueue :=
  (s.pqAt a).getD default

/-- The fields read through a `struct udp_pkt *`. -/
def pkt (s : NetState) (a : Addr) : UdpPkt :=
  (s.pktAt a).getD default

/-- The bytes of the page at `a`. -/
def bytes (s : NetState) (a : Addr) : Bytes :=
  match s.mem a with
  | .raw b => b
  | _ => fun _ => 0

/-- Store into the page at `a`. -/
def setPage (s : NetState) (a : Addr) (p : Page) : NetState :=
  { s with mem := Function.update s.mem a p }

@[simp] theorem setPage_freelist (s : NetState) (a : Addr) (p : Page) :
    (s.setPage a p).freelist = s.freelist := rfl

@[simp] theorem setPage_portList (s : NetState) (a : Addr) (p : Page) :
    (s.setPage a p).portList = s.portList := rfl

@[simp] theorem setPage_tx (s : NetState) (a : Addr) (p : Page) :
    (s.setPage a p).tx = s.tx := rfl

@[simp] theorem setPage_phys (s : NetState) (a : Addr) (p : Page) :
    (s.setPage a p).phys = s.phys := rfl

@[simp] theorem setPage_seenArp (s : NetState) (a : Addr) (p : Page) :
    (s.setPage a p).seenArp = s.seenArp := rfl

@[simp] theorem setPage_panicked (s : NetState) (a : Addr) (p : Page) :
    (s.setPage a p).panicked = s.panicked := rfl

theorem pqAt_setPage_ne {s : NetState} {a b : Addr} (p : Page) (h : b ≠ a) :
    (s.setPage a p).pqAt b = s.pqAt b := by
  simp [setPage, pqAt, Function.update_of_ne h]

theorem pktAt_setPage_ne {s : NetState} {a b : Addr} (p : Page) (h : b ≠ a) :
    (s.setPage a p).pktAt b = s.pktAt b := by
  simp [setPage, pktAt, Function.update_of_ne h]

theorem pq_setPage_ne {s : NetState} {a b : Addr} (p : Page) (h : b ≠ a) :
    (s.setPage a p).pq b = s.pq b := by
  simp [pq, pqAt_setPage_ne p h]

theorem pkt_setPage_ne {s : NetState} {a b : Addr} (p : Page) (h : b ≠ a) :
    (s.setPage a p).pkt b = s.pkt b := by
  simp [pkt, pktAt_setPage_ne p h]

theorem bytes_setPage_ne {s : NetState} {a b : Addr} (p : Page) (h : b ≠ a) :
    (s.setPage a p).bytes b = s.bytes b := by
  simp [setPage, bytes, Function.update_of_ne h]

@[simp] theorem pqAt_setPage_portQueue (s : NetState) (a : Addr) (q : PortQueue) :
    (s.setPage a (.portQueue q)).pqAt a = some q := by
  simp [setPage, pqAt]

@[simp] theorem pktAt_setPage_udpPkt (s : NetState) (a : Addr) (p : UdpPkt) :
    (s.setPage a (.udpPkt p)).pktAt a = some p := by
  simp [setPage, pktAt]

@[simp] theorem pqAt_setPage_udpPkt (s : NetState) (a : Addr) (p : UdpPkt) :
    (s.setPage a (.udpPkt p)).pqAt a = none := by
  simp [setPage, pqAt]

@[simp] theorem pktAt_setPage_portQueue (s : NetState) (a : Addr) (q : PortQueue) :
    (s.setPage a (.portQueue q)).pktAt a = none := by
  simp [setPage, pktAt]

@[simp] theorem pqAt_setPage_raw (s : NetState) (a : Addr) (b : Bytes) :
    (s.setPage a (.raw b)).pqAt a = none := by
  simp [setPage, pqAt]

@[simp] theorem pktAt_setPage_raw (s : NetState) (a : Addr) (b : Bytes) :
    (s.setPage a (.raw b)).pktAt a = none := by
  simp [setPage, pktAt]

@[simp] theorem bytes_setPage_raw (s : NetState) (a : Addr) (b : Bytes) :
    (s.setPage a (.raw b)).bytes a = b := by
  simp [setPage, bytes]

theorem pq_of_pqAt {s : NetState} {a : Addr} {q : PortQueue} (h : s.pqAt a = some q) :
    s.pq a = q := by
  simp [pq, h]

theorem pkt_of_pktAt {s : NetState} {a : Addr} {p : UdpPkt} (h : s.pktAt a = some p) :
    s.pkt a = p := by
  simp [pkt, h]

section MemEq

variable {s s' : NetState} (h : s'.mem = s.mem) (a : Addr)
include h

theorem pqAt_congr : s'.pqAt a = s.pqAt a := by
  simp [pqAt, h]

theorem pktAt_congr : s'.pktAt a = s.pktAt a := by
  simp [pktAt, h]

theorem pq_congr : s'.pq a = s.pq a := by
  simp [pq, pqAt_congr h]

theorem pkt_congr : s'.pkt a = s.pkt a := by
  simp [pkt, pktAt_congr h]

theorem bytes_congr : s'.bytes a = s.bytes a := by
  simp [bytes, h]

end MemEq

end NetState

open NetState

/-- `kalloc()`: the page and the new state; `0` when the free list is empty. -/
def kalloc (s : NetState) : Addr × NetState :=
  match s.freelist with
  | [] => (0, s)
  | a :: rest => (a, { s with freelist := rest })

/-- `kfree(v)`: fill the page with junk and push it on the free list. -/
def kfree (s : NetState) (v : Addr) : NetState :=
  { s.setPage v (.raw (memsetPage 1)) with freelist := v :: s.freelist }

@[simp] theorem kfree_freelist (s : NetState) (v : Addr) :
    (kfree s v).freelist = v :: s.freelist := rfl

@[simp] theorem kfree_portList (s : NetState) (v : Addr) :
    (kfree s v).portList = s.portList := rfl

@[simp] theorem kfree_tx (s : NetState) (v : Addr) : (kfree s v).tx = s.tx := rfl

@[simp] theorem kfree_phys (s : NetState) (v : Addr) : (kfree s v).phys = s.phys := rfl

/-- What `kalloc` can do: fail on an empty free list, or pop its head. -/
theorem kalloc_cases (s : NetState) :
    (s.freelist = [] ∧ kalloc s = (0, s)) ∨
      ∃ a rest, s.freelist = a :: rest ∧ kalloc s = (a, { s with freelist := rest }) := by
  unfold kalloc
  cases h : s.freelist with
  | nil => exact .inl ⟨rfl, rfl⟩
  | cons a rest => exact .inr ⟨a, rest, rfl, rfl⟩

/-- `kalloc` only changes the free list. -/
theorem kalloc_mem {s s1 : NetState} {a : Addr} (hk : kalloc s = (a, s1)) : s1.mem = s.mem := by
  rcases kalloc_cases s with ⟨-, h⟩ | ⟨_, _, -, h⟩ <;>
    · rw [hk] at h
      cases h
      rfl

/-- `find_port_queue(port)`. -/
def findPortQueue (s : NetState) (port : UInt16) : Addr :=
  seek (fun a => (s.pqAt a).map PortQueue.next) 0
    (fun a => (s.pqAt a).any fun q => q.port == port) 65536 s.portList

/-- `sys_bind()`: the new state and the return value. -/
def sysBind (s : NetState) (arg0 : UInt64) : NetState × Int :=
  let port := argint arg0
  if port < 0 ∨ port > 0xFFFF then (s, -1)
  else if findPortQueue s (ushort port) ≠ 0 then (s, -1)
  else
    let (pq, s1) := kalloc s
    if pq = 0 then (s1, -1)
    else
      ({ s1.setPage pq (.portQueue
          { port := ushort port, head := 0, tail := 0, count := 0, next := s.portList })
        with portList := pq }, 0)

/-- The header fields `ip_rx` reads from a frame. -/
structure UdpHeader where
  ipP : UInt8
  ihl : Nat
  ulen : Nat
  dport : UInt16
  sport : UInt16
  srcIp : UInt32

/-- The header reads of `ip_rx`, at the offsets it derives from `ihl`. -/
def readUdpHeader (b : Bytes) : UdpHeader :=
  let ip := sizeofEth
  let ihl := (b ip &&& 0x0f).toNat
  let udp := ip + ihl * 4
  { ipP := b (ip + 9)
    ihl := ihl
    ulen := (ntohs (ld16 b (udp + 4))).toNat
    dport := ntohs (ld16 b (udp + 2))
    sport := ntohs (ld16 b udp)
    srcIp := ntohl (ld32 b (ip + 12)) }

/-- Append the fresh node `pkt` to the queue `pq` and count it:
`pq->tail->next = pkt; pq->tail = pkt;` or `pq->head = pq->tail = pkt;`,
then `pq->count++`. -/
def linkTail (s : NetState) (pq pkt : Addr) : NetState :=
  let q := s.pq pq
  if q.tail ≠ 0 then
    let s1 := s.setPage q.tail (.udpPkt { s.pkt q.tail with next := pkt })
    s1.setPage pq (.portQueue { q with tail := pkt, count := q.count + 1 })
  else
    s.setPage pq (.portQueue { q with head := pkt, tail := pkt, count := q.count + 1 })

/-- `ip_rx(buf, len)`: the new state and the channel passed to `wakeup`. -/
def ipRx (s : NetState) (buf : Addr) (_len : Int) : NetState × Option Addr :=
  let b := s.bytes buf
  let h := readUdpHeader b
  if h.ipP ≠ IPPROTO_UDP then (kfree s buf, none)
  else
    let pq := findPortQueue s h.dport
    if pq = 0 then (kfree s buf, none)
    else if (s.pq pq).count ≥ MAX_QUEUED_PER_PORT then (kfree s buf, none)
    else
      let (pkt, s1) := kalloc s
      if pkt = 0 then (kfree s1 buf, none)
      else
        let node : UdpPkt :=
          { fullbuf := buf, payload := sizeofEth + h.ihl * 4 + sizeofUdp,
            payloadLen := (h.ulen : Int) - sizeofUdp, srcIp := h.srcIp, srcPort := h.sport,
            next := 0 }
        (linkTail (s1.setPage pkt (.udpPkt node)) pq pkt, some pq)

/-- `local_mac`. -/
def localMac : List UInt8 := [0x52, 0x54, 0x00, 0x12, 0x34, 0x56]

/-- `local_ip`: 10.0.2.15. -/
def localIp : UInt32 := 0x0A00020F

/-- `ARP_HRD_ETHER`. -/
def ARP_HRD_ETHER : UInt16 := 1

/-- `ARP_OP_REPLY`. -/
def ARP_OP_REPLY : UInt16 := 2

/-- The ARP reply `arp_rx` writes into the page `old`, field by field, from the
request `inb`. -/
def arpReply (inb old : Bytes) : Bytes :=
  let b := stBytes old 0 (slice inb 6 6)
  let b := stBytes b 6 localMac
  let b := st16 b 12 (htons ETHTYPE_ARP)
  let b := st16 b 14 (htons ARP_HRD_ETHER)
  let b := st16 b 16 (htons ETHTYPE_IP)
  let b := stBytes b 18 [6, 4]
  let b := st16 b 20 (htons ARP_OP_REPLY)
  let b := stBytes b 22 localMac
  let b := st32 b 28 (htonl localIp)
  let b := stBytes b 32 (slice inb 6 6)
  st32 b 38 (ld32 inb 28)

/-- `e1000_transmit(buf, len)` on the network state: the old buffer of the
slot, if any, is freed. -/
def transmit (s : NetState) (buf : Addr) (len : Int) : NetState × Int :=
  let (tx', r, freed) := e1000Transmit s.tx buf len
  let s1 := { s with tx := tx' }
  match freed with
  | some old => (kfree s1 old, r)
  | none => (s1, r)

/-- `arp_rx(inbuf)`. -/
def arpRx (s : NetState) (inbuf : Addr) : NetState :=
  if s.seenArp then kfree s inbuf
  else
    let s := { s with seenArp := true }
    let (buf, s1) := kalloc s
    if buf = 0 then { s1 with panicked := true }
    else
      let s2 := s1.setPage buf (.raw (arpReply (s1.bytes inbuf) (s1.bytes buf)))
      let s3 := (transmit s2 buf (sizeofEth + sizeofArp)).1
      kfree s3 inbuf

/-- `net_rx(buf, len)`: the new state and the channel woken by `ip_rx`. -/
def netRx (s : NetState) (buf : Addr) (len : Int) : NetState × Option Addr :=
  let type := ntohs (ld16 (s.bytes buf) 12)
  if len ≥ sizeofEth + sizeofArp ∧ type = ETHTYPE_ARP then (arpRx s buf, none)
  else if len ≥ sizeofEth + sizeofIp ∧ type = ETHTYPE_IP then ipRx s buf len
  else (kfree s buf, none)

/-- The delivery of a received frame by `e1000_recv`: a fresh page for a
length in 1..PGSIZE, the copy, and `net_rx`. -/
def deliver (s : NetState) (frame : List UInt8) : NetState × Option Addr :=
  let len := frame.length
  if 0 < len ∧ len ≤ PGSIZE then
    let (dst, s1) := kalloc s
    if dst = 0 then (s1, none)
    else
      netRx (s1.setPage dst (.raw (memmove (s1.bytes dst) (fun i => frame.getD i 0) len)))
        dst len
  else (s, none)

/-- The pop of `sys_recv` under `netlock`: `pq->head = pkt->next`,
`pq->tail` reset when the queue becomes empty, `pq->count--`. -/
def dequeue (s : NetState) (pq : Addr) : NetState × Addr :=
  let q := s.pq pq
  let pkt := q.head
  let head := (s.pkt pkt).next
  (s.setPage pq (.portQueue
      { q with head := head, tail := if head = 0 then 0 else q.tail, count := q.count - 1 }),
    pkt)

/-- The number of payload bytes `sys_recv` copies. -/
def tocpy (payloadLen maxlen : Int) : Int :=
  let t := if payloadLen > maxlen then maxlen else payloadLen
  let t := if t < 0 then 0 else t
  if t > 1500 then 1500 else t

/-- The part of `sys_recv` after the pop: the three `copyout`s, the two
`kfree`s, and the return value. -/
def recvCopy (s : NetState) (pgdir srcU sportU bufU : Nat) (maxlen : Int) (pkt : Addr) :
    NetState × Int :=
  let p := s.pkt pkt
  let freeBoth (s : NetState) := kfree (kfree s p.fullbuf) pkt
  let c1 := copyout s.phys pgdir srcU (bytes32 p.srcIp)
  if c1.2 < 0 then (freeBoth { s with phys := c1.1 }, -1)
  else
    let c2 := copyout c1.1 pgdir sportU (bytes16 p.srcPort)
    if c2.2 < 0 then (freeBoth { s with phys := c2.1 }, -1)
    else
      let n := tocpy p.payloadLen maxlen
      if n > 0 then
        let c3 := copyout c2.1 pgdir bufU (slice (s.bytes p.fullbuf) p.payload n.toNat)
        if c3.2 < 0 then (freeBoth { s with phys := c3.1 }, -1)
        else (freeBoth { s with phys := c3.1 }, n)
      else (freeBoth { s with phys := c2.1 }, n)

/-- The arguments of `recv(dport, src, sport, buf, maxlen)`, as registers. -/
structure RecvArgs where
  dport : UInt64
  src : UInt64
  sport : UInt64
  buf : UInt64
  maxlen : UInt64

/-- `sys_recv()` run to completion: `none` when the caller would sleep (the
port is bound and its queue is empty); otherwise the new state and the return
value. -/
def sysRecv (s : NetState) (pgdir : Nat) (a : RecvArgs) : Option (NetState × Int) :=
  let port := ushort (argint a.dport)
  let pq := findPortQueue s port
  if pq = 0 then some (s, -1)
  else if (s.pq pq).count = 0 then none
  else
    let (s1, pkt) := dequeue s pq
    some (recvCopy s1 pgdir (argaddr a.src) (argaddr a.sport) (argaddr a.buf)
      (argint a.maxlen) pkt)

end Net
end Xv6Net
