import Xv6Net.E1000.Tx

/-!
# The E1000 receive ring

The receive half of `e1000.c`: the descriptor ring `rx_ring`, the buffers
`rx_bufs` (modelled by their contents), the tail register RDT written by the
driver and the head register RDH owned by the NIC.

**NIC.**  `nicReceive` is the device receiving one frame: when RDH ≠ RDT it
writes the frame into buffer RDH, sets the descriptor's length and DD bit and
advances RDH; otherwise the frame is missed.

**Driver.**  `e1000RecvStep` is one pass of the `for (;;)` loop of
`e1000_recv`: it looks at descriptor (RDT + 1) mod 16, stops if its DD bit is
clear, and otherwise copies the frame into a fresh page (when the length is in
1..PGSIZE and `kalloc` succeeds), hands the descriptor back by clearing DD and
moving RDT onto it, and passes the copy to `net_rx`.

**Abstract model.**  `RxSpec.step`: a FIFO queue of at most 15 frames; an
arrival is appended unless the queue is full, a pass of the loop takes the
oldest frame.

**The whole call of `e1000_recv`.** `e1000_intr` runs the `for (;;)` loop of
`e1000_recv` until a descriptor is not done. With the NIC writing nothing
meanwhile, the loop is the iteration of `e1000RecvStep`; `e1000Recv` runs it for
at most `fuel` passes and gives `none` if they do not suffice. Under the ring
invariant it stops after exactly as many passes as frames are waiting, at most
15.

**Results.**
* `RxRep`: the ring invariant, relating a ring state to the queue it holds.
* `rxStep_simulation`: every step of the ring refines the step of the queue
  with the same label, and emits the same events.
* `rxRing_delivers_in_order`: along every run from `e1000_init`, the frames
  the driver takes are a prefix of the frames the NIC wrote, and the frames
  passed to `net_rx` are exactly those, minus the ones with a length outside
  1..PGSIZE or whose `kalloc` failed.
-/

namespace Xv6Net
namespace E1000

open Lib

/-- `RX_RING_SIZE`. -/
def RX_RING_SIZE : Nat := 16

/-- `E1000_RXD_STAT_DD`. -/
def E1000_RXD_STAT_DD : UInt8 := 0x01

/-- `struct rx_desc`, the fields the driver and the NIC use. -/
structure RxDesc where
  length : Nat
  status : UInt8
deriving DecidableEq

/-- Receive side of the driver and the device. -/
structure RxState where
  rxRing : Nat → RxDesc
  rxBufs : Nat → Bytes
  rdt : Nat
  rdh : Nat

/-- Descriptor `j` has its DD bit set. -/
def RxState.done (s : RxState) (j : Nat) : Bool :=
  (s.rxRing j).status &&& E1000_RXD_STAT_DD != 0

/-- The frame of descriptor `j` as the driver copies it: its first `length`
buffer bytes. -/
def RxState.frameAt (s : RxState) (j : Nat) : List UInt8 :=
  (List.range (s.rxRing j).length).map (s.rxBufs j)

/-- The receive part of `e1000_init`: statuses cleared, RDH = 0,
RDT = RX_RING_SIZE - 1; the buffers are fresh pages with arbitrary content. -/
def rxInit (pages : Nat → Bytes) : RxState where
  rxRing := fun _ => { length := 0, status := 0 }
  rxBufs := pages
  rdt := RX_RING_SIZE - 1
  rdh := 0

/-- The NIC receiving `frame`: `none` when the ring is full and the frame is
missed. -/
def nicReceive (s : RxState) (frame : List UInt8) : Option RxState :=
  if s.rdh = s.rdt then none
  else
    some { s with
      rxBufs := Function.update s.rxBufs s.rdh
        (memmove (s.rxBufs s.rdh) (fun i => frame.getD i 0) frame.length),
      rxRing := Function.update s.rxRing s.rdh
        { length := frame.length,
          status := (s.rxRing s.rdh).status ||| E1000_RXD_STAT_DD },
      rdh := (s.rdh + 1) % RX_RING_SIZE }

/-- The length check of `e1000_recv` together with the outcome of `kalloc`:
the frame is copied and passed to `net_rx`. -/
def rxKeeps (len : Nat) (kallocOk : Bool) : Bool :=
  decide (0 < len) && decide (len ≤ PGSIZE) && kallocOk

/-- One pass of the loop of `e1000_recv`, with the outcome of the `kalloc`
it may call.  `none`: the descriptor at RDT + 1 is not done and the loop
exits.  Otherwise the new state and the `net_rx(dst, len)` call, if any, given
by the bytes copied into `dst` and `len`. -/
def e1000RecvStep (s : RxState) (kallocOk : Bool) :
    Option (RxState × Option (List UInt8 × Nat)) :=
  let i := (s.rdt + 1) % RX_RING_SIZE
  let d := s.rxRing i
  if d.status &&& E1000_RXD_STAT_DD = 0 then none
  else
    let len := d.length
    let dst := if rxKeeps len kallocOk then some ((List.range len).map (s.rxBufs i)) else none
    some ({ s with rxRing := Function.update s.rxRing i { d with status := 0 }, rdt := i },
      dst.map fun b => (b, len))

/-- What drives the receive side: a frame arriving at the NIC, or a pass of
the driver's loop with the outcome of its `kalloc`. -/
inductive RxLabel
  | arrive (frame : List UInt8)
  | poll (kallocOk : Bool)

/-- What the receive side reports. -/
inductive RxEvent
  | written (frame : List UInt8)
  | taken (frame : List UInt8) (kallocOk : Bool)
  | delivered (frame : List UInt8) (len : Nat)
deriving DecidableEq

/-- One step of the receive system. -/
def rxStep (s : RxState) : RxLabel → RxState × List RxEvent
  | .arrive frame =>
      match nicReceive s frame with
      | none => (s, [])
      | some s' => (s', [.written frame])
  | .poll ok =>
      match e1000RecvStep s ok with
      | none => (s, [])
      | some (s', out) =>
          (s', .taken (s.frameAt ((s.rdt + 1) % RX_RING_SIZE)) ok ::
            out.toList.map fun p => .delivered p.1 p.2)

/-- The abstract receive path: the frames waiting, oldest first. -/
def RxSpec.step (pending : List (List UInt8)) : RxLabel → List (List UInt8) × List RxEvent
  | .arrive frame =>
      if pending.length < RX_RING_SIZE - 1 then (pending ++ [frame], [.written frame])
      else (pending, [])
  | .poll ok =>
      match pending with
      | [] => ([], [])
      | f :: rest =>
          (rest, .taken f ok :: if rxKeeps f.length ok then [.delivered f f.length] else [])

/-- Ring invariant: the frames waiting in the ring are `pending`, the oldest
at RDT + 1; the descriptors after them, up to RDT, are not done. -/
structure RxRep (s : RxState) (pending : List (List UInt8)) : Prop where
  rdt_lt : s.rdt < RX_RING_SIZE
  length_lt : pending.length < RX_RING_SIZE
  rdh_eq : s.rdh = (s.rdt + 1 + pending.length) % RX_RING_SIZE
  filled : ∀ k (hk : k < pending.length),
    s.done ((s.rdt + 1 + k) % RX_RING_SIZE) = true ∧
      s.frameAt ((s.rdt + 1 + k) % RX_RING_SIZE) = pending[k]
  clear : ∀ k, pending.length ≤ k → k < RX_RING_SIZE →
    s.done ((s.rdt + 1 + k) % RX_RING_SIZE) = false

theorem rxRep_init (pages : Nat → Bytes) : RxRep (rxInit pages) [] where
  rdt_lt := by simp [rxInit, RX_RING_SIZE]
  length_lt := by simp [RX_RING_SIZE]
  rdh_eq := by simp [rxInit, RX_RING_SIZE]
  filled := fun k hk => absurd hk (Nat.not_lt_zero k)
  clear := fun k _ _ => by simp [rxInit, RxState.done]

/-- Ring positions at different offsets below the ring size are different. -/
theorem ringPos_ne {r a b : Nat} (ha : a < RX_RING_SIZE) (hb : b < RX_RING_SIZE) (hab : a ≠ b) :
    (r + 1 + a) % RX_RING_SIZE ≠ (r + 1 + b) % RX_RING_SIZE := by
  simp only [RX_RING_SIZE] at *
  omega

/-- Setting the DD bit sets it. -/
@[simp] theorem dd_or (x : UInt8) :
    (x ||| E1000_RXD_STAT_DD) &&& E1000_RXD_STAT_DD = E1000_RXD_STAT_DD := by
  apply UInt8.toNat_inj.mp
  simp [E1000_RXD_STAT_DD, Nat.and_one_is_mod]

/-- Writing a frame into a buffer and reading it back gives the frame. -/
theorem frame_memmove (old : Bytes) (frame : List UInt8) :
    (List.range frame.length).map (memmove old (fun i => frame.getD i 0) frame.length) = frame := by
  apply List.ext_getElem (by simp)
  intro i h₁ h₂
  simp only [List.getElem_map, List.getElem_range]
  rw [memmove_lt h₂]
  simp [List.getElem?_eq_getElem h₂]

theorem nicReceive_eq_none {s : RxState} {p : List (List UInt8)} (h : RxRep s p)
    (frame : List UInt8) : nicReceive s frame = none ↔ ¬ p.length < RX_RING_SIZE - 1 := by
  have hr := h.rdt_lt
  have hl := h.length_lt
  have hh := h.rdh_eq
  simp only [RX_RING_SIZE] at hr hl hh ⊢
  by_cases hfull : s.rdh = s.rdt
  · simp only [nicReceive, hfull, if_true, true_iff]
    omega
  · simp only [nicReceive, hfull, if_false, reduceCtorEq, false_iff, not_not]
    omega

/-- An arrival into a ring that is not full appends the frame to the queue. -/
theorem rxRep_nicReceive {s : RxState} {p : List (List UInt8)} (h : RxRep s p)
    (frame : List UInt8) (hlt : p.length < RX_RING_SIZE - 1) :
    ∃ s', nicReceive s frame = some s' ∧ RxRep s' (p ++ [frame]) := by
  have hr := h.rdt_lt
  have hh := h.rdh_eq
  have hne : s.rdh ≠ s.rdt := by
    simp only [RX_RING_SIZE] at hr hh hlt
    omega
  refine ⟨_, by simp only [nicReceive, hne, if_false]; rfl, ?_⟩
  have hpos : ∀ k, k < RX_RING_SIZE → k ≠ p.length →
      (s.rdt + 1 + k) % RX_RING_SIZE ≠ s.rdh := by
    intro k hk hkp
    rw [hh]
    exact ringPos_ne hk (by omega) hkp
  constructor
  · exact hr
  · simp only [List.length_append, List.length_singleton]
    omega
  · simp only [List.length_append, List.length_singleton, hh, RX_RING_SIZE] at hr ⊢
    omega
  · intro k hk
    simp only [List.length_append, List.length_singleton] at hk
    by_cases hkp : k = p.length
    · subst hkp
      rw [← hh]
      simp only [RxState.done, RxState.frameAt, Function.update_self, dd_or,
        List.getElem_concat_length]
      exact ⟨by decide, frame_memmove _ _⟩
    · have hk' : k < p.length := by omega
      have hne' := hpos k (by omega) hkp
      simp only [RxState.done, RxState.frameAt, Function.update_of_ne hne']
      rw [List.getElem_append_left hk']
      exact h.filled k hk'
  · intro k hk hk16
    simp only [List.length_append, List.length_singleton] at hk
    have hne' := hpos k hk16 (by omega)
    simp only [RxState.done, Function.update_of_ne hne']
    exact h.clear k (by omega) hk16

theorem e1000RecvStep_eq_none {s : RxState} (h : RxRep s []) (ok : Bool) :
    e1000RecvStep s ok = none := by
  have hc := h.clear 0 (le_refl 0) (by decide)
  simp only [RxState.done, Nat.add_zero, bne_eq_false_iff_eq] at hc
  simp [e1000RecvStep, hc]

/-- A pass over a non-empty ring takes the oldest frame, hands its descriptor
back, and passes the frame to `net_rx` when it is kept. -/
theorem rxRep_e1000RecvStep {s : RxState} {f : List UInt8} {rest : List (List UInt8)}
    (h : RxRep s (f :: rest)) (ok : Bool) :
    ∃ s', e1000RecvStep s ok =
        some (s', if rxKeeps f.length ok then some (f, f.length) else none) ∧
      s.frameAt ((s.rdt + 1) % RX_RING_SIZE) = f ∧ RxRep s' rest := by
  have hr := h.rdt_lt
  have hl := h.length_lt
  have hh := h.rdh_eq
  obtain ⟨hd, hf⟩ := h.filled 0 (by simp)
  simp only [Nat.add_zero, List.getElem_cons_zero] at hd hf
  have hdd : (s.rxRing ((s.rdt + 1) % RX_RING_SIZE)).status &&& E1000_RXD_STAT_DD ≠ 0 := by
    simpa [RxState.done] using hd
  have hlen : (s.rxRing ((s.rdt + 1) % RX_RING_SIZE)).length = f.length := by
    rw [← hf, RxState.frameAt, List.length_map, List.length_range]
  have hbytes : (List.range f.length).map (s.rxBufs ((s.rdt + 1) % RX_RING_SIZE)) = f := by
    rw [← hlen]
    exact hf
  refine ⟨_, by simp only [e1000RecvStep, hdd, if_false, hlen, hbytes]; cases rxKeeps f.length ok <;> rfl,
    hf, ?_⟩
  have hshift : ∀ k, ((s.rdt + 1) % RX_RING_SIZE + 1 + k) % RX_RING_SIZE =
      (s.rdt + 1 + (k + 1)) % RX_RING_SIZE := by
    intro k
    simp only [RX_RING_SIZE]
    omega
  simp only [List.length_cons] at hl hh
  constructor
  · simp only [RX_RING_SIZE]
    omega
  · omega
  · rw [hh, hshift]
  · intro k hk
    have hne := ringPos_ne (r := s.rdt) (a := k + 1) (b := 0) (by omega) (by decide) (by omega)
    simp only [Nat.add_zero] at hne
    rw [hshift]
    simp only [RxState.done, RxState.frameAt, Function.update_of_ne hne]
    exact h.filled (k + 1) (by simp; omega)
  · intro k hk hk16
    by_cases hlast : k + 1 = RX_RING_SIZE
    · have hpos : (s.rdt + 1 + (k + 1)) % RX_RING_SIZE = (s.rdt + 1) % RX_RING_SIZE := by
        rw [hlast]
        simp [RX_RING_SIZE]
      rw [hshift, hpos]
      simp [RxState.done]
    · have hne := ringPos_ne (r := s.rdt) (a := k + 1) (b := 0) (by omega) (by decide) (by omega)
      simp only [Nat.add_zero] at hne
      rw [hshift]
      simp only [RxState.done, Function.update_of_ne hne]
      exact h.clear (k + 1) (by simp; omega) (by omega)

/-- Every step of the ring refines the step of the queue with the same label. -/
theorem rxStep_simulation {s : RxState} {p : List (List UInt8)} (h : RxRep s p) (l : RxLabel) :
    RxRep (rxStep s l).1 (RxSpec.step p l).1 ∧ (rxStep s l).2 = (RxSpec.step p l).2 := by
  cases l with
  | arrive frame =>
      by_cases hlt : p.length < RX_RING_SIZE - 1
      · obtain ⟨s', hs', hrep⟩ := rxRep_nicReceive h frame hlt
        simp [rxStep, RxSpec.step, hs', hlt, hrep]
      · have hn := (nicReceive_eq_none h frame).mpr hlt
        simp [rxStep, RxSpec.step, hn, hlt, h]
  | poll ok =>
      cases p with
      | nil => simp [rxStep, RxSpec.step, e1000RecvStep_eq_none h ok, h]
      | cons f rest =>
          obtain ⟨s', hs', hf, hrep⟩ := rxRep_e1000RecvStep h ok
          refine ⟨by simp [rxStep, RxSpec.step, hs', hrep], ?_⟩
          cases hk : rxKeeps f.length ok <;> simp [rxStep, RxSpec.step, hs', hf, hk]

/-- The frame the NIC wrote. -/
def RxEvent.writtenFrame : RxEvent → List (List UInt8)
  | .written f => [f]
  | _ => []

/-- The frame the driver took, with the outcome of its `kalloc`. -/
def RxEvent.takenFrame : RxEvent → List (List UInt8 × Bool)
  | .taken f ok => [(f, ok)]
  | _ => []

/-- The `net_rx(dst, len)` call. -/
def RxEvent.deliveredFrame : RxEvent → List (List UInt8 × Nat)
  | .delivered f len => [(f, len)]
  | _ => []

/-- The `net_rx` call a taken frame leads to. -/
def keptCall (x : List UInt8 × Bool) : List (List UInt8 × Nat) :=
  if rxKeeps x.1.length x.2 then [(x.1, x.1.length)] else []

theorem rxSpec_conservation (p : List (List UInt8)) (l : RxLabel) :
    p ++ (RxSpec.step p l).2.flatMap RxEvent.writtenFrame =
      ((RxSpec.step p l).2.flatMap RxEvent.takenFrame).map Prod.fst ++ (RxSpec.step p l).1 := by
  cases l with
  | arrive frame =>
      by_cases hlt : p.length < RX_RING_SIZE - 1 <;>
        simp [RxSpec.step, hlt, RxEvent.writtenFrame, RxEvent.takenFrame]
  | poll ok =>
      cases p with
      | nil => simp [RxSpec.step]
      | cons f rest =>
          cases hk : rxKeeps f.length ok <;>
            simp [RxSpec.step, hk, RxEvent.writtenFrame, RxEvent.takenFrame]

theorem rxSpec_delivered (p : List (List UInt8)) (l : RxLabel) :
    (RxSpec.step p l).2.flatMap RxEvent.deliveredFrame =
      (RxSpec.step p l).2.flatMap fun e => e.takenFrame.flatMap keptCall := by
  cases l with
  | arrive frame =>
      by_cases hlt : p.length < RX_RING_SIZE - 1 <;>
        simp [RxSpec.step, hlt, RxEvent.deliveredFrame, RxEvent.takenFrame]
  | poll ok =>
      cases p with
      | nil => simp [RxSpec.step]
      | cons f rest =>
          cases hk : rxKeeps f.length ok <;>
            simp [RxSpec.step, hk, RxEvent.deliveredFrame, RxEvent.takenFrame, keptCall]

/-- The RX ring protocol.  Along every run from `e1000_init`, whatever the
interleaving of arrivals and passes of the driver loop:
* the ring holds the frames written and not yet taken, oldest at RDT + 1
  (`RxRep`);
* the frames written are the frames taken, in order, followed by those still
  held: none is taken twice or skipped;
* the `net_rx` calls are exactly the taken frames with a length in 1..PGSIZE
  whose `kalloc` succeeded, in order, each with its own length. -/
theorem rxRing_delivers_in_order (pages : Nat → Bytes) (ls : List RxLabel) :
    RxRep (run rxStep (rxInit pages) ls).1 (run RxSpec.step [] ls).1 ∧
      (run rxStep (rxInit pages) ls).2.flatMap RxEvent.writtenFrame =
        ((run rxStep (rxInit pages) ls).2.flatMap RxEvent.takenFrame).map Prod.fst ++
          (run RxSpec.step [] ls).1 ∧
      (run rxStep (rxInit pages) ls).2.flatMap RxEvent.deliveredFrame =
        ((run rxStep (rxInit pages) ls).2.flatMap RxEvent.takenFrame).flatMap keptCall := by
  obtain ⟨hrep, hev⟩ := run_simulation rxStep RxSpec.step RxRep
    (fun s p l h => rxStep_simulation h l) ls (rxInit pages) [] (rxRep_init pages)
  have hcons := run_conservation RxSpec.step (fun _ => True) (fun _ _ _ => trivial) id
    RxEvent.writtenFrame (fun e => e.takenFrame.map Prod.fst)
    (fun p l _ => by simpa [List.map_flatMap] using rxSpec_conservation p l) ls [] trivial
  have hdel := run_flatMap_eq RxSpec.step (fun _ => True) (fun _ _ _ => trivial)
    RxEvent.deliveredFrame (fun e => e.takenFrame.flatMap keptCall)
    (fun p l _ => rxSpec_delivered p l) ls [] trivial
  refine ⟨hrep, ?_, ?_⟩
  · rw [hev]
    simpa [List.map_flatMap] using hcons
  · rw [hev, hdel, List.flatMap_assoc]

/-- `e1000_recv` with at most `fuel` passes, the `kalloc` of pass `k` having
outcome `oks k`: the state after the loop and, for each pass, the `net_rx`
call it made. -/
def e1000Recv : Nat → RxState → (Nat → Bool) → Option (RxState × List (Option (List UInt8 × Nat)))
  | 0, _, _ => none
  | fuel + 1, s, oks =>
      match e1000RecvStep s (oks 0) with
      | none => some (s, [])
      | some (s', out) =>
          (e1000Recv fuel s' fun k => oks (k + 1)).map fun r => (r.1, out :: r.2)

/-- The loop exits exactly at a descriptor whose DD bit is clear. -/
theorem e1000RecvStep_eq_none_iff (s : RxState) (ok : Bool) :
    e1000RecvStep s ok = none ↔ s.done ((s.rdt + 1) % RX_RING_SIZE) = false := by
  simp only [e1000RecvStep, RxState.done, bne_eq_false_iff_eq]
  split_ifs with h <;> simp [h]

/-- A pass hands the descriptor it consumed back to the NIC: its DD bit is
cleared and RDT moves onto it. -/
theorem e1000RecvStep_hands_back {s s' : RxState} {ok : Bool} {out : Option (List UInt8 × Nat)}
    (h : e1000RecvStep s ok = some (s', out)) :
    s'.rdt = (s.rdt + 1) % RX_RING_SIZE ∧ s'.done s'.rdt = false := by
  simp only [e1000RecvStep] at h
  split_ifs at h <;>
  · obtain ⟨rfl, -⟩ := Prod.mk.inj (Option.some.inj h)
    simp [RxState.done, E1000_RXD_STAT_DD]

/-- From a ring holding `pending`, the loop makes one pass per waiting frame
and stops on an empty ring, given one more pass of fuel than frames. -/
theorem e1000Recv_of_rxRep {s : RxState} {pending : List (List UInt8)} (h : RxRep s pending)
    (fuel : Nat) (hfuel : pending.length < fuel) (oks : Nat → Bool) :
    ∃ s' outs, e1000Recv fuel s oks = some (s', outs) ∧ outs.length = pending.length ∧
      RxRep s' [] := by
  induction pending generalizing s fuel oks with
  | nil =>
      obtain ⟨fuel, rfl⟩ : ∃ f, fuel = f + 1 := ⟨fuel - 1, by simp at hfuel; omega⟩
      exact ⟨s, [], by simp [e1000Recv, e1000RecvStep_eq_none h], rfl, h⟩
  | cons f rest ih =>
      obtain ⟨fuel, rfl⟩ : ∃ f, fuel = f + 1 := ⟨fuel - 1, by simp at hfuel; omega⟩
      obtain ⟨s1, hs1, -, h1⟩ := rxRep_e1000RecvStep h (oks 0)
      obtain ⟨s', outs, hrun, hlen, h'⟩ :=
        ih h1 fuel (by simp at hfuel; omega) fun k => oks (k + 1)
      refine ⟨s', (if rxKeeps f.length (oks 0) then some (f, f.length) else none) :: outs, ?_,
        by simp [hlen], h'⟩
      simp [e1000Recv, hs1, hrun]

/-- The ring invariant holds in every state reachable from `e1000_init`. -/
theorem rxRep_run (pages : Nat → Bytes) (ls : List RxLabel) :
    RxRep (run rxStep (rxInit pages) ls).1 (run RxSpec.step [] ls).1 :=
  (run_simulation rxStep RxSpec.step RxRep (fun _ _ l h => rxStep_simulation h l) ls
    (rxInit pages) [] (rxRep_init pages)).1

/-- `e1000_recv` terminates: in every state reachable from `e1000_init`, and
whatever its `kalloc`s return, the loop stops within `RX_RING_SIZE` checks,
after at most `RX_RING_SIZE - 1` passes, at a descriptor whose DD bit is
clear; every pass clears the DD bit of the descriptor it consumed and moves
RDT onto it. -/
theorem e1000Recv_terminates (pages : Nat → Bytes) (ls : List RxLabel) (oks : Nat → Bool) :
    (∃ s' outs, e1000Recv RX_RING_SIZE (run rxStep (rxInit pages) ls).1 oks = some (s', outs) ∧
        outs.length ≤ RX_RING_SIZE - 1 ∧ s'.done ((s'.rdt + 1) % RX_RING_SIZE) = false) ∧
      ∀ (t t' : RxState) (ok : Bool) (out : Option (List UInt8 × Nat)),
        e1000RecvStep t ok = some (t', out) →
          t'.rdt = (t.rdt + 1) % RX_RING_SIZE ∧ t'.done t'.rdt = false := by
  have h := rxRep_run pages ls
  have hlt := h.length_lt
  obtain ⟨s', outs, hrun, hlen, h'⟩ := e1000Recv_of_rxRep h RX_RING_SIZE hlt oks
  refine ⟨⟨s', outs, hrun, by omega, ?_⟩, fun _ _ _ _ hs => e1000RecvStep_hands_back hs⟩
  simpa using h'.clear 0 le_rfl (by decide)

end E1000
end Xv6Net
