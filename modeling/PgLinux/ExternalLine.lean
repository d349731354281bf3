import PgLinux.DeviceReset
import PgLinux.MachineMode
import PgLinux.PlicClaim
/-!
# ExternalLine — `mip.SEIP` and the claim register (`check_interrupts`, `plic_load`)

The line looks at both words of pending bits, the claim loop at the sources 1 to 63.  They differ at source 0, which is
pending in no state reached from boot: only an initialised device raises its interrupt.
-/
namespace PgLinux

/-! ## One state -/

theorem word_ne_zero (v : U32) : v ≠ 0 ↔ ∃ j, j < 32 ∧ v.getLsbD j = true := by
  constructor
  · intro h
    by_contra hnone
    refine h (BitVec.eq_of_getLsbD_eq fun j hj => ?_)
    rw [show (0 : U32).getLsbD j = false from BitVec.getLsbD_zero, Bool.eq_false_iff]
    exact fun hbit => hnone ⟨j, hj, hbit⟩
  · rintro ⟨j, -, hbit⟩ rfl
    rw [show (0 : U32).getLsbD j = false from BitVec.getLsbD_zero] at hbit
    cases hbit

/-- The source of bit `j` of a word. -/
theorem source_at {w : U32} (hw : w.toNat < 2) {j : Nat} (hj : j < 32) :
    ∃ k : U32, k.toNat = 32 * w.toNat + j ∧ k / 32 = w ∧ (k % 32).toNat = j := by
  have h32 : (32 : U32).toNat = 32 := rfl
  have hk : (BitVec.ofNat 32 (32 * w.toNat + j)).toNat = 32 * w.toNat + j := Nat.mod_eq_of_lt (by omega)
  refine ⟨BitVec.ofNat 32 (32 * w.toNat + j), hk, ?_, ?_⟩
  · apply BitVec.eq_of_toNat_eq
    rw [BitVec.toNat_udiv, hk, h32]
    omega
  · rw [BitVec.toNat_umod, hk, h32]
    omega

/-- A word is not zero when one of its sources is pending and enabled. -/
theorem lineWord_iff (p : Plic) (ctx : Bool) {w : U32} (hw : w.toNat < 2) : p.pending w &&& p.enable ctx w ≠ 0 ↔
    ∃ k : U32, k / 32 = w ∧ p.isPending k = true ∧ p.isEnabled ctx k = true := by
  rw [word_ne_zero]
  constructor
  · rintro ⟨j, hj, hbit⟩
    rw [BitVec.getLsbD_and, Bool.and_eq_true] at hbit
    obtain ⟨k, -, rfl, rfl⟩ := source_at hw hj
    exact ⟨k, rfl, hbit.1, hbit.2⟩
  · rintro ⟨k, rfl, hpend, hen⟩
    exact ⟨_, slot_lt k, by rw [BitVec.getLsbD_and, Bool.and_eq_true]; exact ⟨hpend, hen⟩⟩

theorem source_word (k : U32) : (k / 32 = 0 ∨ k / 32 = 1) ↔ k.toNat < 64 := by
  have h32 : (32 : U32).toNat = 32 := rfl
  rw [← BitVec.toNat_inj, ← BitVec.toNat_inj, BitVec.toNat_udiv, h32, show (0 : U32).toNat = 0 from rfl,
    show (1 : U32).toNat = 1 from rfl]
  omega

/-- The line is up when one of the 64 sources is pending and enabled. -/
theorem updateMip_seip (c : Cpu) : (updateMip c).csr.mip.getLsbD 9 = true ↔
    ∃ k : U32, k.toNat < 64 ∧ c.bus.plic.isPending k = true ∧ c.bus.plic.isEnabled true k = true := by
  have hbit : (updateMip c).csr.mip.getLsbD 9 = true ↔ c.bus.plic.pending 0 &&& c.bus.plic.enable true 0 ≠ 0 ∨
      c.bus.plic.pending 1 &&& c.bus.plic.enable true 1 ≠ 0 := by
    have hseip : mipSeip.getLsbD 9 = true := rfl
    unfold updateMip
    dsimp only
    generalize (if c.csr.stimecmp ≤ c.bus.clint.mtime then _ ||| mipStip else _) = mip
    split
    next hline =>
      rw [Bool.or_eq_true, bne_iff_ne, bne_iff_ne] at hline
      rw [BitVec.getLsbD_or, hseip, Bool.or_true]
      exact iff_of_true rfl hline
    next hline =>
      rw [Bool.or_eq_true, bne_iff_ne, bne_iff_ne] at hline
      rw [BitVec.getLsbD_and, BitVec.getLsbD_not, hseip, Bool.not_true, Bool.and_false, Bool.and_false]
      exact iff_of_false Bool.false_ne_true hline
  rw [hbit, lineWord_iff _ _ (by decide), lineWord_iff _ _ (by decide)]
  constructor
  · rintro (⟨k, hk, h⟩ | ⟨k, hk, h⟩)
    · exact ⟨k, (source_word k).1 (.inl hk), h⟩
    · exact ⟨k, (source_word k).1 (.inr hk), h⟩
  · rintro ⟨k, hk, h⟩
    rcases (source_word k).2 hk with hword | hword
    · exact .inl ⟨k, hword, h⟩
    · exact .inr ⟨k, hword, h⟩

/-- A claim answers a source when one of the sources 1 to 63 waits. -/
theorem claim_ne_zero (ramSize : U64) (b : Bus) (ctx : Bool) (size : Nat) :
    (busLoad ramSize b (claimAddr ctx) size).1 ≠ 0 ↔ ∃ k, b.plic.Waits ctx k := by
  rw [busLoad_claim]
  dsimp only
  rcases plicClaim_first b.plic ctx 63 1 (by decide) (by decide) fun j hj => hj.pos with
    ⟨k, hk, -, hval, -⟩ | ⟨hnone, hsame⟩
  · rw [hval]
    refine iff_of_true (fun h0 => ?_) ⟨k, hk⟩
    have hpos := hk.pos
    have hzero : (k.setWidth 64).toNat = 0 := by rw [h0]; rfl
    rw [BitVec.toNat_setWidth] at hzero
    omega
  · rw [hsame]
    exact iff_of_false (fun h => h rfl) fun ⟨k, hk⟩ => hnone k hk

/-! ## Source 0 -/

/-- A device that raises no interrupt, or one with a number. -/
def VirtioDev.Numbered (dev : VirtioDev) : Prop :=
  dev.irq ≠ 0 ∨ (dev.int_status = 0 ∧ dev.device_id = 0 ∧ dev.slirp = false)

/-- Source 0 is not pending, and no device raises it. -/
structure Sourced (b : Bus) : Prop where
  source0 : b.plic.isPending 0 = false
  blk : b.virtio_blk.Numbered
  net : b.virtio_net.Numbered

theorem isPending_raise_ne {p : Plic} {i irq : U32} (h : i ≠ irq) : (p.raise irq).isPending i = p.isPending i := by
  unfold Plic.isPending Plic.raise setAt
  dsimp only
  split
  next heq =>
    have hslot : (i % 32).toNat ≠ (irq % 32).toNat := fun hm => h (eq_of_slot heq hm)
    rw [BitVec.getLsbD_or, bit_getLsbD _ (slot_lt i), decide_eq_false hslot, Bool.or_false, heq]
  next => rfl

/-- **A device raises no source 0.** -/
theorem VirtioDev.Numbered.raise {dev : VirtioDev} (h : dev.Numbered) {p : Plic} (hp : p.isPending 0 = false) :
    (if dev.int_status ≠ 0 then p.raise dev.irq else p).isPending 0 = false := by
  rcases h with hirq | ⟨hint, -, -⟩
  · split
    · rw [isPending_raise_ne hirq.symm]
      exact hp
    · exact hp
  · rw [if_neg (not_not.2 hint)]
    exact hp

theorem VirtioDev.Numbered.of_irq {dev dev' : VirtioDev} (h : dev.irq ≠ 0) (hirq : dev'.irq = dev.irq) : dev'.Numbered :=
  .inl (by rw [hirq]; exact h)

theorem virtioRegStore_quiet {dev : VirtioDev} (h : dev.int_status = 0) (offset val : U64) :
    (virtioRegStore dev offset val).int_status = 0 := by
  by_cases hsel : offset ∈ selectedRegs
  · refine virtioRegStore_selected dev hsel val (P := fun d => d.int_status = 0) fun f => ?_
    unfold updQueue
    split <;> exact h
  · simp only [selectedRegs, List.mem_cons, List.not_mem_nil, or_false, not_or] at hsel
    obtain ⟨h1, h2, h3, h4, h5, h6, h7, h8⟩ := hsel
    have hack : dev.int_status &&& ~~~(val.setWidth 32) = 0 := by
      rw [h]
      exact BitVec.zero_and
    unfold virtioRegStore
    simp only [if_neg h1, if_neg h2, if_neg h3, if_neg h4, if_neg h5, if_neg h6, if_neg h7, if_neg h8]
    split_ifs
    all_goals first | exact h | exact hack | rfl

theorem virtioRegStore_numbered {dev : VirtioDev} (h : dev.Numbered) (offset val : U64) :
    (virtioRegStore dev offset val).Numbered := by
  by_cases hreset : offset = 0x070 ∧ val = 0
  · obtain ⟨rfl, rfl⟩ := hreset
    rcases h with hirq | ⟨-, hid, -⟩
    · exact .inl hirq
    · exact .inr ⟨rfl, hid, rfl⟩
  · have hhost := virtioRegStore_host dev hreset
    rcases h with hirq | ⟨hint, hid, hslirp⟩
    · exact .of_irq hirq hhost.irq
    · exact .inr ⟨virtioRegStore_quiet hint offset val, hhost.device_id.trans hid, hhost.slirp.trans hslirp⟩

/-! ## One access -/

theorem plicLoad_source0 {p : Plic} (h : p.isPending 0 = false) (offset : U64) :
    (plicLoad p offset).2.isPending 0 = false := by
  have hclaim : ∀ ctx, (plicClaim p ctx 63 1).2.isPending 0 = false := by
    intro ctx
    rcases plicClaim_first p ctx 63 1 (by decide) (by decide) fun j hj => hj.pos with
      ⟨k, -, -, -, hclaimed⟩ | ⟨-, hsame⟩
    · rw [hclaimed.pending, h, Bool.false_and]
    · rw [hsame]
      exact h
  by_cases h0 : offset = claimOffset false
  · rw [h0, plicLoad_claim]
    exact hclaim false
  by_cases h1 : offset = claimOffset true
  · rw [h1, plicLoad_claim]
    exact hclaim true
  · rw [plicLoad_other p h0 h1]
    exact h

theorem Sourced.busLoad {b : Bus} (h : Sourced b) (ramSize addr : U64) (size : Nat) :
    Sourced (PgLinux.busLoad ramSize b addr size).2 := by
  unfold PgLinux.busLoad
  split
  · exact h
  unfold mmioLoad
  split
  · exact ⟨h.source0, h.blk, h.net⟩
  split
  · exact h
  split
  · exact ⟨plicLoad_source0 h.source0 _, h.blk, h.net⟩
  split
  · exact h
  split <;> exact h

theorem Sourced.uartRx {b : Bus} (h : Sourced b) (ch : U8) : Sourced (PgLinux.uartRx b ch) where
  source0 := by
    show (b.plic.raise uart0Irq).isPending 0 = false
    rw [isPending_raise_ne (by decide)]
    exact h.source0
  blk := h.blk
  net := h.net

section Devices

variable [NetHost]

theorem virtioNotify_numbered {dev : VirtioDev} (h : dev.Numbered) (fuel : Nat) (ramSize val : U64) (mem : BlkMem) :
    (@virtioNotify dev ramSize (NetHost.device fuel) val mem).2.Numbered := by
  rcases h with hirq | hidle
  · exact .of_irq hirq (virtioNotify_host fuel dev ramSize val mem).irq
  · unfold virtioNotify
    rw [hidle.2.1, if_neg (show ¬ (0 : U32) = virtioDevBlk by decide), if_neg (show ¬ (0 : U32) = virtioDevNet by decide),
      ite_self]
    exact .inr hidle

theorem virtioMmioStore_numbered {dev : VirtioDev} (h : dev.Numbered) (fuel : Nat) (ramSize offset val : U64)
    (mem : BlkMem) : (@virtioMmioStore dev ramSize (NetHost.device fuel) offset val mem).2.Numbered := by
  unfold virtioMmioStore
  split
  · exact virtioNotify_numbered h fuel ramSize val mem
  · exact virtioRegStore_numbered h offset val

theorem poll_numbered {dev : VirtioDev} (h : dev.Numbered) (fuel : Nat) (mem : BlkMem) :
    (@netPoll dev (NetHost.device fuel) mem).2.Numbered := by
  rcases h with hirq | hidle
  · exact .of_irq hirq (device_poll_frame fuel dev mem).host.irq
  · refine netCall_device dev (.inr hidle) fun k r hr => ?_
    have hpoll : virtioNetPoll fuel dev mem.ram = some (dev, mem.ram) := by
      unfold virtioNetPoll
      rw [hidle.2.2]
      rfl
    obtain rfl := Option.some.inj (hpoll.symm.trans hr)
    exact .inr hidle

theorem Sourced.busStore {b : Bus} (h : Sourced b) (fuel : Nat) (ramSize addr : U64) (size : Nat) (val : U64) :
    Sourced (@PgLinux.busStore (NetHost.device fuel) ramSize b addr size val) := by
  have huart : (b.plic.raise uart0Irq).isPending 0 = false := by
    rw [isPending_raise_ne (by decide)]
    exact h.source0
  unfold PgLinux.busStore
  split
  · exact ⟨h.source0, h.blk, h.net⟩
  unfold mmioStore
  split
  · dsimp only
    split
    · exact ⟨huart, h.blk, h.net⟩
    · exact ⟨h.source0, h.blk, h.net⟩
  split
  · exact ⟨h.source0, h.blk, h.net⟩
  split
  · refine ⟨?_, h.blk, h.net⟩
    unfold Plic.isPending
    rw [plicStore_pending]
    exact h.source0
  split
  · have hdev := virtioMmioStore_numbered h.blk fuel ramSize (addr - virtioMmioBase) val b.mem
    exact ⟨hdev.raise h.source0, hdev, h.net⟩
  split
  · have hdev := virtioMmioStore_numbered h.net fuel ramSize (addr - (virtioMmioBase + virtioMmioSize)) val b.mem
    exact ⟨hdev.raise h.source0, h.blk, hdev⟩
  · exact h

end Devices

/-! ## Runs from boot -/

/-- What may change while source 0 is quiet. -/
def KeepsSourced (c c' : Cpu) : Prop := Sourced c.bus → Sourced c'.bus

instance : IsPreorder Cpu KeepsSourced where
  refl _ := id
  trans _ _ _ h h' := h' ∘ h

theorem keepsSourced_of_bus {c c' : Cpu} (h : c'.bus = c.bus) : KeepsSourced c c' := fun hc => h ▸ hc

section Machine

variable [NetHost] (fuel : Nat)

theorem keepsSourced_bus : @BusRules (NetHost.device fuel) KeepsSourced := by
  let _ := NetHost.device fuel
  exact {
    load := fun c pa size h => h.busLoad c.ram_size pa size
    store := fun c pa size val h => h.busStore fuel c.ram_size pa size val
    write := fun _ _ _ _ h => ⟨h.source0, h.blk, h.net⟩ }

theorem keepsSourced_rules : @StepRules (NetHost.device fuel) KeepsSourced := by
  let _ := NetHost.device fuel
  have htr : ∀ va a, Prog.Leads KeepsSourced (rv64Translate va a) :=
    leads_rv64Translate (keepsSourced_bus fuel) fun _ _ _ _ _ _ _ _ => keepsSourced_of_bus rfl
  exact {
    core := fun h => keepsSourced_of_bus h.bus
    load := leads_rv64CpuLoad (keepsSourced_bus fuel) htr
    store := leads_cpuStore (keepsSourced_bus fuel) (fun _ _ => keepsSourced_of_bus rfl) htr
    trap := fun c cause tval => by
      obtain ⟨r, p, pc, d, h⟩ := trap_frame c cause tval
      exact keepsSourced_of_bus (by rw [h])
    csrWrite := fun c csr val => by
      obtain ⟨r, f, t, j, h⟩ := csrWrite_frame c csr val
      exact keepsSourced_of_bus (by rw [h])
    tlbFlush := fun _ => keepsSourced_of_bus rfl
    jitFlush := fun _ => keepsSourced_of_bus rfl }

theorem pollNet_sourced (c : Cpu) : KeepsSourced c (@pollNet (NetHost.device fuel) c) := by
  intro h
  unfold pollNet
  split
  · exact ⟨h.source0, h.blk, poll_numbered h.net fuel c.bus.mem⟩
  · exact h

variable [HostFp]

theorem machineStep_sourced {c c' : Cpu} (hs : @MachineStep (NetHost.device fuel) _ c c') : KeepsSourced c c' := by
  let _ := NetHost.device fuel
  have hrules := keepsSourced_rules fuel
  have hreturns : ∀ {d d' : Cpu}, ThenReturns KeepsSourced d d' → KeepsSourced d d' := by
    rintro d d' (h | ⟨m, h, hret | hret⟩)
    · exact h
    · exact fun hd => hret.bus ▸ h hd
    · obtain ⟨r, p, g, heq, -⟩ := sret_frame m
      have hbus : (sret m).bus = m.bus := by rw [heq]
      exact fun hd => (hret.bus.trans hbus) ▸ h hd
  cases hs with
  | step => exact hreturns (hrules.rv64Step c)
  | jit undef => exact hrules.jitExec (fun _ _ => keepsSourced_of_bus rfl) undef c
  | interrupts => exact hrules.checkInterrupts_poll (pollNet_sourced fuel) c
  | tick => exact fun h => ⟨h.source0, h.blk, h.net⟩

end Machine

/-- A command attaches memory and a disk and sets callbacks; it may restart the machine from its saved image. -/
structure CommandFrame (c c' : Cpu) : Prop where
  plic : c'.bus.plic = c.bus.plic
  virtio_net : c'.bus.virtio_net = c.bus.virtio_net
  virtio_blk : ∃ data size dirty,
    c'.bus.virtio_blk = { c.bus.virtio_blk with disk_data := data, disk_size := size, mark_dirty := dirty }

/-- The states reached from boot, with any network and host at each step. -/
inductive Booted : Cpu → Prop
  | reset (ram : Mem) (ramSize : U64) : Booted (rv64Init ram ramSize)
  | devices {c : Cpu} (h : Booted c) (disk : Bool) (diskSize vmId : U64) : Booted (bootDevices disk diskSize vmId c)
  | step {c c' : Cpu} (h : Booted c) (host : NetHost) (fuel : Nat) (fp : HostFp)
    (hs : @MachineStep (@NetHost.device host fuel) fp c c') : Booted c'
  | input {c : Cpu} (h : Booted c) (ch : U8) : Booted { c with bus := uartRx c.bus ch }
  | command {c c' : Cpu} (h : Booted c) (hframe : CommandFrame c c') : Booted c'

theorem Booted.sourced {c : Cpu} (h : Booted c) : Sourced c.bus := by
  induction h with
  | reset ram ramSize => exact ⟨BitVec.getLsbD_zero, .inr ⟨rfl, rfl, rfl⟩, .inr ⟨rfl, rfl, rfl⟩⟩
  | devices _ disk diskSize vmId ih =>
    refine ⟨ih.source0, ?_, .inl (show virtioNetIrq ≠ 0 by decide)⟩
    cases disk with
    | false => exact ih.blk
    | true => exact .inl (show virtioBlkIrq ≠ 0 by decide)
  | step _ host fuel fp hs ih => exact machineStep_sourced fuel hs ih
  | input _ ch ih => exact ih.uartRx ch
  | command _ hframe ih =>
    obtain ⟨data, size, dirty, hblk⟩ := hframe.virtio_blk
    refine ⟨?_, ?_, ?_⟩
    · rw [hframe.plic]
      exact ih.source0
    · rw [hblk]
      exact ih.blk
    · rw [hframe.virtio_net]
      exact ih.net

/-- The line agrees with the claim register of the supervisor context. -/
def LineAgrees (c : Cpu) : Prop :=
  ∀ ramSize size, c.csr.mip.getLsbD 9 = true ↔ (busLoad ramSize c.bus (claimAddr true) size).1 ≠ 0

theorem lineAgrees_updateMip {c : Cpu} (h : c.bus.plic.isPending 0 = false) : LineAgrees (updateMip c) := by
  intro ramSize size
  rw [updateMip_seip, claim_ne_zero]
  constructor
  · rintro ⟨k, hk, hpend, hen⟩
    refine ⟨k, Nat.pos_of_ne_zero fun h0 => ?_, hk, hpend, hen⟩
    obtain rfl : k = 0 := BitVec.eq_of_toNat_eq h0
    rw [h] at hpend
    cases hpend
  · rintro ⟨k, hk⟩
    exact ⟨k, hk.lt, hk.pending, hk.enabled⟩

theorem LineAgrees.of_same {c d : Cpu} (h : LineAgrees c) (hmip : d.csr.mip = c.csr.mip) (hplic : d.bus.plic = c.bus.plic) :
    LineAgrees d := by
  intro ramSize size
  rw [hmip, h ramSize size, busLoad_claim, busLoad_claim, hplic]

theorem trap_mip (c : Cpu) (cause tval : U64) : (trap c cause tval).csr.mip = c.csr.mip := by
  unfold trap Cpu.logTrap
  dsimp only
  split <;> split <;> rfl

/-- The network and the trap leave the line and the PLIC alone. -/
theorem checkInterrupts_line [NetDevice] (c : Cpu) : (checkInterrupts c).1.csr.mip = (updateMip c).csr.mip ∧
    (checkInterrupts c).1.bus.plic = (updateMip c).bus.plic := by
  have hpoll : (pollNet (updateMip c)).csr.mip = (updateMip c).csr.mip ∧
      (pollNet (updateMip c)).bus.plic = (updateMip c).bus.plic := by
    unfold pollNet
    split <;> exact ⟨rfl, rfl⟩
  unfold checkInterrupts
  dsimp only
  split
  next cause _ =>
    obtain ⟨r, p, pc, d, h⟩ := trap_frame (pollNet (updateMip c)) cause 0
    refine ⟨(trap_mip _ _ _).trans hpoll.1, ?_⟩
    have hbus : (trap (pollNet (updateMip c)) cause 0).bus = (pollNet (updateMip c)).bus := by rw [h]
    exact (congrArg Bus.plic hbus).trans hpoll.2
  next => exact hpoll

/-- **After `check_interrupts` the line is up exactly when a claim would answer a source**, in every state reached from
boot: once the line is written, and on return. -/
theorem externalLine {c : Cpu} (h : Booted c) :
    LineAgrees (updateMip c) ∧ ∀ [NetDevice], LineAgrees (checkInterrupts c).1 := by
  have hline := lineAgrees_updateMip h.sourced.source0
  exact ⟨hline, fun {_} => hline.of_same (checkInterrupts_line c).1 (checkInterrupts_line c).2⟩

section Instances

local instance lineHost : NetHost := NetHost.quiet 0
local instance lineNet : NetDevice := NetHost.device 0
local instance lineFp : HostFp := HostFp.zero

/-- `lui x5, 0xC002; addi x6, x0, 0x400; sw x6, 0x80(x5)`: the UART's source is enabled for the supervisor. -/
def uartEnabled : Cpu := stepTimes 3 (rv64Init (programAt [0x0C0022B7, 0x40000313, 0x0862A023] 0 fun _ => 0) 0x10000)

/-- A character then brings the line up, and the claim would answer source 10. -/
theorem externalLine_character :
    (updateMip { uartEnabled with bus := uartRx uartEnabled.bus 0x61 }).csr.mip.getLsbD 9 = true ∧
      (busLoad 0x10000 (updateMip { uartEnabled with bus := uartRx uartEnabled.bus 0x61 }).bus (claimAddr true) 4).1 ≠ 0 := by
  have hstep : ∀ {c : Cpu}, Booted c → Booted (rv64Step c) := fun h => .step h lineHost 0 lineFp (.step _)
  have hrun : ∀ {n c}, Booted c → Booted (stepTimes n c) := by
    intro n
    induction n with
    | zero => exact id
    | succ n ih => exact fun h => ih (hstep h)
  have hbooted : Booted uartEnabled := hrun (.reset _ _)
  have hup : (updateMip { uartEnabled with bus := uartRx uartEnabled.bus 0x61 }).csr.mip.getLsbD 9 = true := by
    decide +kernel
  exact ⟨hup, ((externalLine (hbooted.input 0x61)).1 0x10000 4).1 hup⟩

end Instances

end PgLinux
