import PgLinux.DirtyBlocks
import PgLinux.NetTermination
import PgLinux.Rules
/-!
# HungCalls — a call of the network device that has not returned never will

Every move of the machine keeps the count of such calls or raises it.  What raises it is a notify of the transmit queue
whose chains have no end.
-/
namespace PgLinux

/-- The calls of the network device that have not returned. -/
def Cpu.netHung (c : Cpu) : Nat := c.bus.mem.net.hung

def HungKept (c c' : Cpu) : Prop := c.netHung ≤ c'.netHung

instance : IsPreorder Cpu HungKept where
  refl _ := Nat.le_refl _
  trans _ _ _ := Nat.le_trans

theorem hungKept_of_bus {c c' : Cpu} (h : c'.bus = c.bus) : HungKept c c' := by
  unfold HungKept Cpu.netHung
  rw [h]

/-! ## The devices -/

theorem netCall_hung_le (dev : VirtioDev) (mem : BlkMem) (call : Nat → Option (VirtioDev × Mem)) :
    mem.net.hung ≤ (netCall dev mem call).1.net.hung := by
  unfold netCall
  split
  · exact Nat.le_refl _
  · exact Nat.le_succ _

theorem virtioBlkProcessQueue_net (dev : VirtioDev) (ramSize : U64) (qi : U32) (mem : BlkMem) :
    (virtioBlkProcessQueue dev ramSize qi mem).1.net = mem.net := by
  refine virtioBlkProcessQueue_keeps (P := fun m => m.net = mem.net) dev (fun _ _ => id) (fun w d hw => ?_) qi mem rfl
  rcases virtioBlkData_effect ramSize dev w d with ⟨ram, log, he, -⟩ | ⟨-, -, he⟩ <;> rw [he]
  · exact hw
  · exact hw

section Bus

variable [NetDevice]

theorem virtioMmioStore_hung_le (dev : VirtioDev) (ramSize offset val : U64) (mem : BlkMem) :
    mem.net.hung ≤ (virtioMmioStore dev ramSize offset val mem).1.net.hung := by
  unfold virtioMmioStore virtioNotify
  split
  · split
    · split
      · rw [virtioBlkProcessQueue_net]
      · split
        · exact netCall_hung_le dev mem _
        · exact Nat.le_refl _
    · exact Nat.le_refl _
  · exact Nat.le_refl _

theorem busStore_hung_le (ramSize : U64) (b : Bus) (addr : U64) (size : Nat) (val : U64) :
    b.mem.net.hung ≤ (busStore ramSize b addr size val).mem.net.hung := by
  unfold busStore
  split
  · exact Nat.le_refl _
  unfold mmioStore
  split
  · dsimp only
    split <;> exact Nat.le_refl _
  split
  · exact Nat.le_refl _
  split
  · exact Nat.le_refl _
  split
  · exact virtioMmioStore_hung_le b.virtio_blk ramSize _ val b.mem
  split
  · exact virtioMmioStore_hung_le b.virtio_net ramSize _ val b.mem
  · exact Nat.le_refl _

end Bus

/-! ## The machine -/

section Machine

variable [NetDevice]

theorem hungKept_bus : BusRules HungKept where
  load c pa size := by
    unfold HungKept Cpu.netHung
    dsimp only
    rw [busLoad_mem]
  store c pa size val := busStore_hung_le c.ram_size c.bus pa size val
  write _ _ _ _ := Nat.le_refl _

theorem hungKept_rules : StepRules HungKept where
  core h := hungKept_of_bus h.bus
  load := leads_rv64CpuLoad hungKept_bus (leads_rv64Translate hungKept_bus fun _ _ _ _ _ _ _ _ => hungKept_of_bus rfl)
  store := leads_cpuStore hungKept_bus (fun _ _ => hungKept_of_bus rfl)
    (leads_rv64Translate hungKept_bus fun _ _ _ _ _ _ _ _ => hungKept_of_bus rfl)
  trap c cause tval := by
    obtain ⟨r, p, pc, d, h⟩ := trap_frame c cause tval
    exact hungKept_of_bus (by rw [h])
  csrWrite c csr val := by
    obtain ⟨r, f, t, j, h⟩ := csrWrite_frame c csr val
    exact hungKept_of_bus (by rw [h])
  tlbFlush _ := hungKept_of_bus rfl
  jitFlush _ := hungKept_of_bus rfl

theorem checkInterrupts_hungKept (c : Cpu) : HungKept c (checkInterrupts c).1 :=
  hungKept_rules.checkInterrupts_poll (fun c => by
    unfold pollNet
    split
    · exact netCall_hung_le c.bus.virtio_net c.bus.mem _
    · exact Nat.le_refl _) c

variable [HostFp]

theorem rv64Step_hungKept (c : Cpu) : HungKept c (rv64Step c) := by
  rcases hungKept_rules.rv64Step c with h | ⟨m, h, hret | hret⟩
  · exact h
  · exact trans_of HungKept h (hungKept_of_bus hret.bus)
  · obtain ⟨r, p, g, heq, -⟩ := sret_frame m
    exact trans_of HungKept h (hungKept_of_bus (hret.bus.trans (by rw [heq])))

theorem jitExec_hungKept (undef : U64) (c : Cpu) : HungKept c (jitExec undef c).2 :=
  hungKept_rules.jitExec (fun _ _ => hungKept_of_bus rfl) undef c

end Machine

end PgLinux
