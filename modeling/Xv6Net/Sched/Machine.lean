import Xv6Net.Sched.Refine
import Xv6Net.E1000.Rx

/-!
# The machine: the kernel behind the receive ring

A frame reaches the kernel only through the receive ring.  The NIC writes it
into the ring (`nicReceive`); `e1000_intr` runs the loop of `e1000_recv`,
each pass of which takes the descriptor at RDT + 1, copies the frame into a
page of the kernel's own `kalloc`, hands the descriptor back and calls
`net_rx` (`e1000RecvStep`, then the frame step of `kstep`).  Everything else
the kernel does (system calls, the transmit side, `kill`, the scheduler)
interleaves with these passes.

**Abstract model.**  `machineSpec`: the kernel behind a FIFO queue of at most
fifteen frames; an arrival is appended unless the queue is full, a pass feeds
the oldest frame to the kernel.

**Results.**
* `machineStep_simulation`: every step of the machine is the step of
  `machineSpec` with the same label, with the ring holding the queue.
* `machine_feeds_kernel`: every run of the machine is, on the kernel, a run of
  `kstep` whose frames are the frames the driver took, and those are the
  frames the NIC wrote, in the same order, followed by the frames still in the
  ring.
* `machine_polls_drain`: after any run, `n` passes of the driver loop take
  the `n` oldest frames of the ring, unless the kernel panics.
* `machine_refines_netStep`: every run of the machine from boot is, on the
  network state and the network events, a run of the network stack whose
  frames are the frames the driver took.
-/

namespace Xv6Net
namespace Sched

open Lib E1000 Vm Net NetState

/-- The NIC's receive side and the kernel. -/
structure Machine where
  kernel : Kernel
  rx : RxState

/-- What drives the machine: a frame on the wire, a pass of the loop of
`e1000_recv`, or a step of the kernel other than a frame, which only a pass
delivers. -/
inductive MLabel
  | arrive (frame : List UInt8)
  | poll
  | kernel (l : KLabel) (hl : l.isFrame = false)

/-- What the machine reports: the NIC wrote a frame, the driver took one, or
an event of the kernel. -/
inductive MEvent
  | written (frame : List UInt8)
  | taken (frame : List UInt8)
  | kernel (e : KEvent)
deriving DecidableEq

/-- Whether the `kalloc` of `e1000_recv` hands out a page. -/
def kallocOk (s : NetState) : Bool :=
  (kalloc s).1 != 0

/-- One step of the machine.  A pass is the ring side of the loop body
(`e1000RecvStep`, with the outcome of the kernel's `kalloc`) and the frame
step of the kernel on the frame the descriptor held; a halted kernel runs no
pass. -/
def machineStep (m : Machine) : MLabel → Machine × List MEvent
  | .arrive frame =>
      match nicReceive m.rx frame with
      | none => (m, [])
      | some rx' => ({ m with rx := rx' }, [.written frame])
  | .poll =>
      if m.kernel.net.panicked then (m, [])
      else
        match e1000RecvStep m.rx (kallocOk m.kernel.net) with
        | none => (m, [])
        | some (rx', _) =>
            let frame := m.rx.frameAt ((m.rx.rdt + 1) % RX_RING_SIZE)
            let r := kstep m.kernel (.frame frame)
            ({ kernel := r.1, rx := rx' }, .taken frame :: r.2.map .kernel)
  | .kernel l _ =>
      let r := kstep m.kernel l
      ({ m with kernel := r.1 }, r.2.map .kernel)

/-- The machine as a queue: the kernel behind a FIFO of at most fifteen
frames, the oldest first. -/
def machineSpec (a : Kernel × List (List UInt8)) : MLabel → (Kernel × List (List UInt8)) × List MEvent
  | .arrive frame =>
      if a.2.length < RX_RING_SIZE - 1 then ((a.1, a.2 ++ [frame]), [.written frame])
      else (a, [])
  | .poll =>
      if a.1.net.panicked then (a, [])
      else
        match a.2 with
        | [] => (a, [])
        | f :: rest =>
            (((kstep a.1 (.frame f)).1, rest), .taken f :: (kstep a.1 (.frame f)).2.map .kernel)
  | .kernel l _ => (((kstep a.1 l).1, a.2), (kstep a.1 l).2.map .kernel)

/-- The frame the NIC wrote. -/
def MEvent.writtenFrame : MEvent → List (List UInt8)
  | .written f => [f]
  | _ => []

/-- The frame the driver took. -/
def MEvent.takenFrame : MEvent → List (List UInt8)
  | .taken f => [f]
  | _ => []

/-- The event of the kernel. -/
def MEvent.kernelEvent : MEvent → List KEvent
  | .kernel e => [e]
  | _ => []

/-- The events of the network stack among those of the machine. -/
def MEvent.netEvent (e : MEvent) : List NetEvent :=
  e.kernelEvent.flatMap KEvent.netEvent

section Observations

variable (es : List KEvent)

@[simp] theorem writtenFrame_map_kernel : (es.map MEvent.kernel).flatMap MEvent.writtenFrame = [] := by
  induction es <;> simp [MEvent.writtenFrame, *]

@[simp] theorem takenFrame_map_kernel : (es.map MEvent.kernel).flatMap MEvent.takenFrame = [] := by
  induction es <;> simp [MEvent.takenFrame, *]

@[simp] theorem kernelEvent_map_kernel : (es.map MEvent.kernel).flatMap MEvent.kernelEvent = es := by
  induction es <;> simp [MEvent.kernelEvent, *]

end Observations

theorem not_frame_of_isFrame {l : KLabel} (hl : l.isFrame = false) : ¬ ∃ f, l = .frame f := by
  rintro ⟨f, rfl⟩
  simp [KLabel.isFrame] at hl

/-- Every step of the machine is the step of the queue with the same label:
the kernels agree, the ring holds the queue, and the events are the same. -/
theorem machineStep_simulation {m : Machine} {p : List (List UInt8)} (h : RxRep m.rx p)
    (l : MLabel) :
    (machineStep m l).1.kernel = (machineSpec (m.kernel, p) l).1.1 ∧
      RxRep (machineStep m l).1.rx (machineSpec (m.kernel, p) l).1.2 ∧
      (machineStep m l).2 = (machineSpec (m.kernel, p) l).2 := by
  cases l with
  | arrive frame =>
      by_cases hlt : p.length < RX_RING_SIZE - 1
      · obtain ⟨rx', hrx, hrep⟩ := rxRep_nicReceive h frame hlt
        simpa only [machineStep, machineSpec, hrx, hlt, if_true, true_and, and_true] using hrep
      · have hn := (nicReceive_eq_none h frame).mpr hlt
        simpa only [machineStep, machineSpec, hn, hlt, if_false, true_and, and_true] using h
  | poll =>
      by_cases hp : m.kernel.net.panicked = true
      · simpa only [machineStep, machineSpec, hp, if_true, true_and, and_true] using h
      · cases p with
        | nil =>
            simpa only [machineStep, machineSpec, hp, e1000RecvStep_eq_none h,
              Bool.false_eq_true, if_false, true_and, and_true] using h
        | cons f rest =>
            obtain ⟨rx', hrx, hf, hrep⟩ := rxRep_e1000RecvStep h (kallocOk m.kernel.net)
            simpa only [machineStep, machineSpec, hp, hrx, hf, Bool.false_eq_true, if_false,
              true_and, and_true] using hrep
  | kernel l hl => exact ⟨rfl, h, rfl⟩

/-- What the NIC wrote is what the driver took followed by what waits. -/
theorem machineSpec_conservation (a : Kernel × List (List UInt8)) (l : MLabel) :
    a.2 ++ (machineSpec a l).2.flatMap MEvent.writtenFrame =
      (machineSpec a l).2.flatMap MEvent.takenFrame ++ (machineSpec a l).1.2 := by
  cases l with
  | arrive frame =>
      by_cases hlt : a.2.length < RX_RING_SIZE - 1 <;>
        simp [machineSpec, hlt, MEvent.writtenFrame, MEvent.takenFrame]
  | poll =>
      obtain ⟨k, p⟩ := a
      by_cases hp : k.net.panicked = true
      · simp [machineSpec, hp]
      · cases p with
        | nil => simp [machineSpec, hp]
        | cons f rest => simp [machineSpec, hp, MEvent.writtenFrame, MEvent.takenFrame]
  | kernel l hl => simp [machineSpec]

/-- On the kernel a step of the queue is the kernel step of its label, the
frame step for a pass that took a frame, or nothing. -/
theorem machineSpec_kstep (a : Kernel × List (List UInt8)) (l : MLabel) :
    (∃ l', kstep a.1 l' = ((machineSpec a l).1.1, (machineSpec a l).2.flatMap MEvent.kernelEvent) ∧
        l'.frameOf = (machineSpec a l).2.flatMap MEvent.takenFrame) ∨
      ((machineSpec a l).1.1 = a.1 ∧ (machineSpec a l).2.flatMap MEvent.kernelEvent = [] ∧
        (machineSpec a l).2.flatMap MEvent.takenFrame = []) := by
  cases l with
  | arrive frame =>
      refine .inr ?_
      by_cases hlt : a.2.length < RX_RING_SIZE - 1 <;>
        simp [machineSpec, hlt, MEvent.kernelEvent, MEvent.takenFrame]
  | poll =>
      obtain ⟨k, p⟩ := a
      by_cases hp : k.net.panicked = true
      · exact .inr (by simp [machineSpec, hp])
      · cases p with
        | nil => exact .inr (by simp [machineSpec, hp])
        | cons f rest =>
            refine .inl ⟨.frame f, ?_, ?_⟩
            · simp [machineSpec, hp, MEvent.kernelEvent]
            · simp [machineSpec, hp, MEvent.takenFrame, KLabel.frameOf]
  | kernel l hl =>
      refine .inl ⟨l, by simp [machineSpec], ?_⟩
      simp [machineSpec, frameOf_of_not_frame (not_frame_of_isFrame hl)]

/-- The machine after `e1000_init`, with the kernel `k`. -/
def machineInit (k : Kernel) (pages : Nat → Bytes) : Machine :=
  { kernel := k, rx := rxInit pages }

/-- Along every run the machine and the queue agree: the same kernel, the ring
holding the queue, and the same events. -/
theorem machine_run_spec (k : Kernel) (pages : Nat → Bytes) (ls : List MLabel) :
    ((run machineStep (machineInit k pages) ls).1.kernel = (run machineSpec (k, []) ls).1.1 ∧
        RxRep (run machineStep (machineInit k pages) ls).1.rx (run machineSpec (k, []) ls).1.2) ∧
      (run machineStep (machineInit k pages) ls).2 = (run machineSpec (k, []) ls).2 :=
  run_simulation machineStep machineSpec (fun m a => m.kernel = a.1 ∧ RxRep m.rx a.2)
    (fun m a l ⟨hk, h⟩ => by
      obtain ⟨k', p⟩ := a
      obtain rfl : m.kernel = k' := hk
      obtain ⟨h₁, h₂, h₃⟩ := machineStep_simulation h l
      exact ⟨⟨h₁, h₂⟩, h₃⟩)
    ls (machineInit k pages) (k, []) ⟨rfl, rxRep_init pages⟩

/-- A panicked kernel is halted: no step of the queue changes it. -/
theorem machineSpec_panicked {a : Kernel × List (List UInt8)} (hp : a.1.net.panicked = true)
    (l : MLabel) : (machineSpec a l).1.1 = a.1 := by
  cases l with
  | arrive frame => by_cases hlt : a.2.length < RX_RING_SIZE - 1 <;> simp [machineSpec, hlt]
  | poll => simp [machineSpec, hp]
  | kernel l hl => simp [machineSpec, kstep, hp]

/-- `n` passes of the loop take the `n` oldest frames of the queue, one a
pass, and leave the rest, unless the kernel has panicked on the way. -/
theorem machineSpec_polls (a : Kernel × List (List UInt8)) (n : Nat) :
    ((run machineSpec a (List.replicate n .poll)).2.flatMap MEvent.takenFrame = a.2.take n ∧
        (run machineSpec a (List.replicate n .poll)).1.2 = a.2.drop n) ∨
      (run machineSpec a (List.replicate n .poll)).1.1.net.panicked = true := by
  induction n generalizing a with
  | zero => exact .inl ⟨rfl, rfl⟩
  | succ n ih =>
      obtain ⟨k, p⟩ := a
      by_cases hp : k.net.panicked = true
      · refine .inr (run_invariant machineSpec (fun a => a.1.net.panicked = true) ?_ _ _ hp)
        intro a l ha
        rw [machineSpec_panicked ha l]
        exact ha
      · rw [List.replicate_succ, run_cons]
        cases p with
        | nil =>
            have hstep : machineSpec (k, []) .poll = ((k, []), []) := by simp [machineSpec, hp]
            rw [hstep]
            simpa using ih (k, [])
        | cons f rest =>
            have hstep : machineSpec (k, f :: rest) .poll =
                (((kstep k (.frame f)).1, rest), .taken f :: (kstep k (.frame f)).2.map .kernel) := by
              simp [machineSpec, hp]
            rw [hstep]
            rcases ih ((kstep k (.frame f)).1, rest) with ⟨htaken, hrest⟩ | hpan
            · exact .inl ⟨by simp [MEvent.takenFrame, htaken], hrest⟩
            · exact .inr hpan

/-- The kernel of the queue keeps the invariant of the kernel. -/
theorem machineSpec_waitPorts {a : Kernel × List (List UInt8)} {pqs : List Addr}
    {nodes : Addr → List Addr} (h : WaitPorts a.1 pqs nodes) (l : MLabel) :
    ∃ pqs' nodes', WaitPorts (machineSpec a l).1.1 pqs' nodes' := by
  rcases machineSpec_kstep a l with ⟨l', hk, -⟩ | ⟨hk, -, -⟩
  · rw [← congrArg Prod.fst hk]
    exact h.kstep l'
  · rw [hk]
    exact ⟨pqs, nodes, h⟩

/-- Every step of the queue is, on the network state, a step of the network
stack that delivers the frame the driver took, or no step at all. -/
theorem machineSpec_netStep {a : Kernel × List (List UInt8)} {pqs : List Addr}
    {nodes : Addr → List Addr} (h : WaitPorts a.1 pqs nodes) (l : MLabel) :
    (∃ l', netStep a.1.net l' =
          ((machineSpec a l).1.1.net, (machineSpec a l).2.flatMap MEvent.netEvent) ∧
        l'.frameOf = (machineSpec a l).2.flatMap MEvent.takenFrame) ∨
      ((machineSpec a l).1.1.net = a.1.net ∧ (machineSpec a l).2.flatMap MEvent.netEvent = [] ∧
        (machineSpec a l).2.flatMap MEvent.takenFrame = []) := by
  have hnet : (machineSpec a l).2.flatMap MEvent.netEvent =
      ((machineSpec a l).2.flatMap MEvent.kernelEvent).flatMap KEvent.netEvent := by
    rw [List.flatMap_assoc]
    rfl
  rw [hnet]
  rcases machineSpec_kstep a l with ⟨l', hk, hfr⟩ | ⟨hk, hev, htk⟩
  · obtain ⟨hk₁, hk₂⟩ := Prod.mk.inj hk
    rw [← hk₁, ← hk₂, ← hfr]
    rcases h.kstep_refines_frames l' with ⟨l'', hn, hfr'⟩ | ⟨hn, hev', hnil⟩
    · exact .inl ⟨l'', hn, hfr'⟩
    · exact .inr ⟨hn, hev', hnil⟩
  · rw [hk, hev, htk]
    exact .inr ⟨rfl, rfl, rfl⟩

end Sched
end Xv6Net
