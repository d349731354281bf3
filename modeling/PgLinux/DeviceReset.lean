import PgLinux.QueueIndex
import PgLinux.QueueRemainder
/-!
# DeviceReset — what a driver's reset leaves of a device (`virtio_mmio_store`)

A write of zero to STATUS clears the structure and puts five fields back, those of the block device.  The network device
keeps its backend and its view of guest RAM in the same structure: without a backend `virtio_net_process_queue` drops
every frame and `virtio_net_poll` returns at once, and only `virtio_net_init` attaches one.
-/
namespace PgLinux

/-- Nothing but transport state differs: status, features, queues and interrupt status. -/
structure KeepsHost (dev dev' : VirtioDev) : Prop extends SameHost dev dev' where
  rx_ring_buffers : dev'.rx_ring_buffers = dev.rx_ring_buffers
  rx_ring_sizes : dev'.rx_ring_sizes = dev.rx_ring_sizes
  rx_head : dev'.rx_head = dev.rx_head
  rx_tail : dev'.rx_tail = dev.rx_tail

/-- Nothing to lose: no backend, no RAM, no callback and an untouched ring. -/
structure Detached (dev : VirtioDev) : Prop where
  slirp : dev.slirp = false
  ram : dev.ram = false
  ram_size : dev.ram_size = 0
  mark_dirty : dev.mark_dirty = false
  rx_ring_buffers : dev.rx_ring_buffers = fun _ _ => 0
  rx_ring_sizes : dev.rx_ring_sizes = fun _ => 0
  rx_head : dev.rx_head = 0
  rx_tail : dev.rx_tail = 0

/-- What packets need in both directions. -/
structure Attached (ramSize : U64) (dev : VirtioDev) : Prop where
  slirp : dev.slirp = true
  ram : dev.ram = true
  ram_size : dev.ram_size = ramSize

/-- A write of zero to STATUS. -/
def VirtioEvent.Resets : VirtioEvent → Prop
  | .store _ _ offset val => offset = 0x070 ∧ val = 0
  | .poll _ _ => False
  | .arrive _ => False
  | .memory _ => False

/-! ## The reset -/

theorem keepsHost_reset_iff (dev : VirtioDev) : KeepsHost dev (virtioReset dev) ↔ Detached dev := by
  constructor
  · intro h
    exact ⟨h.slirp.symm, h.ram.symm, h.ram_size.symm, h.mark_dirty.symm, h.rx_ring_buffers.symm, h.rx_ring_sizes.symm,
      h.rx_head.symm, h.rx_tail.symm⟩
  · intro h
    exact ⟨⟨rfl, rfl, rfl, rfl, h.slirp.symm, h.ram.symm, h.ram_size.symm, h.mark_dirty.symm⟩, h.rx_ring_buffers.symm,
      h.rx_ring_sizes.symm, h.rx_head.symm, h.rx_tail.symm⟩

/-! ## Other events -/

theorem updQueue_host (dev : VirtioDev) (f : VirtioQueue → VirtioQueue) : SameHost dev (updQueue dev f) := by
  unfold updQueue
  split <;> exact ⟨rfl, rfl, rfl, rfl, rfl, rfl, rfl, rfl⟩

theorem virtioRegStore_host (dev : VirtioDev) {offset val : U64} (h : ¬ (offset = 0x070 ∧ val = 0)) :
    SameHost dev (virtioRegStore dev offset val) := by
  by_cases hsel : offset ∈ selectedRegs
  · exact virtioRegStore_selected dev hsel val (updQueue_host dev)
  · simp only [selectedRegs, List.mem_cons, List.not_mem_nil, or_false, not_or] at hsel
    obtain ⟨h1, h2, h3, h4, h5, h6, h7, h8⟩ := hsel
    unfold virtioRegStore
    simp only [if_neg h1, if_neg h2, if_neg h3, if_neg h4, if_neg h5, if_neg h6, if_neg h7, if_neg h8]
    split_ifs
    all_goals first | exact ⟨rfl, rfl, rfl, rfl, rfl, rfl, rfl, rfl⟩ | exact absurd ⟨‹_›, ‹_›⟩ h

theorem virtioBlkProcessQueue_host (dev : VirtioDev) (ramSize : U64) (qi : U32) (mem : BlkMem) :
    SameHost dev (virtioBlkProcessQueue dev ramSize qi mem).2 := by
  unfold virtioBlkProcessQueue
  dsimp only
  split_ifs <;> exact ⟨rfl, rfl, rfl, rfl, rfl, rfl, rfl, rfl⟩

theorem virtioNotify_host [NetHost] (fuel : Nat) (dev : VirtioDev) (ramSize val : U64) (mem : BlkMem) :
    SameHost dev (@virtioNotify dev ramSize (NetHost.device fuel) val mem).2 := by
  unfold virtioNotify
  split
  · split
    · exact virtioBlkProcessQueue_host dev ramSize _ mem
    · split
      · exact (device_processQueue_frame fuel dev _ mem).host
      · exact .refl dev
  · exact .refl dev

/-- **Only a reset touches what ties a device to its host.** -/
theorem virtioEvent_host (ramSize : U64) (s : BlkMem × VirtioDev) {e : VirtioEvent} (h : ¬ e.Resets) :
    SameHost s.2 (e.run ramSize s).2 := by
  cases e with
  | store host fuel offset val =>
    show SameHost s.2 (@virtioMmioStore s.2 ramSize (@NetHost.device host fuel) offset val s.1).2
    unfold virtioMmioStore
    split
    · exact virtioNotify_host fuel s.2 ramSize val s.1
    · exact virtioRegStore_host s.2 h
  | poll host fuel => exact (device_poll_frame fuel s.2 s.1).host
  | arrive pkt => exact (slirpSendPacket_frame s.2 pkt).host
  | memory mem => exact .refl s.2

/-! ## Resets -/

/-- **A reset keeps the host's attachments exactly where there are none, and a network device stays attached exactly until
its driver resets it.** -/
theorem resetKeepsHost_iff (ramSize : U64) :
    (∀ [NetDevice] (dev : VirtioDev) (mem : BlkMem),
      KeepsHost dev (virtioMmioStore dev ramSize 0x070 0 mem).2 ↔ Detached dev) ∧
    ∀ (irq : U32) (mem : BlkMem) (evs : List VirtioEvent),
      Runs.Along (VirtioEvent.run ramSize) (fun s => Attached ramSize s.2) (mem, virtioNetInit irq ramSize) evs ↔
        Runs.Avoids (VirtioEvent.run ramSize) (fun _ e => e.Resets) (mem, virtioNetInit irq ramSize) evs := by
  refine ⟨fun dev mem => keepsHost_reset_iff dev, fun irq mem evs => ?_⟩
  refine Runs.along_iff_avoids (I := fun _ => True) (fun _ _ _ => trivial) (fun s e _ hs => ?_) trivial ⟨rfl, rfl, rfl⟩ evs
  constructor
  · intro hs' hreset
    cases e with
    | store host fuel offset val =>
      obtain ⟨rfl, rfl⟩ := hreset
      exact Bool.false_ne_true hs'.slirp
    | poll host fuel => exact hreset
    | arrive pkt => exact hreset
    | memory mem => exact hreset
  · intro hkeep
    have hhost := virtioEvent_host ramSize s hkeep
    exact ⟨hhost.slirp.trans hs.slirp, hhost.ram.trans hs.ram, hhost.ram_size.trans hs.ram_size⟩

section Instances

local instance resetNet : NetDevice := NetDevice.silent

/-- The reset of a network device at probe: the backend is gone. -/
theorem not_keepsHost_probe :
    ¬ KeepsHost (virtioNetInit 9 0x10000) (virtioMmioStore (virtioNetInit 9 0x10000) 0x10000 0x070 0 .null).2 := by
  intro h
  have hslirp : false = true := h.slirp
  cases hslirp

end Instances

end PgLinux
