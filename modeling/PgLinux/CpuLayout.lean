import PgLinux.Lib.CLayout
/-!
# CpuLayout — where the fields of `struct rv64_cpu` lie (`rv64_cpu.h`, `rv64_virtio.h`)

Pointers and `size_t` take eight bytes, `int` and the enumeration take four.
-/
namespace PgLinux
namespace CpuLayout

open CLayout

def u8 : Layout := scalar 1
def u16 : Layout := scalar 2
def u32 : Layout := scalar 4
def u64 : Layout := scalar 8
def int : Layout := scalar 4
def pointer : Layout := scalar 8

def reservationFields : Fields := [("valid", int), ("addr", u64)]

def tlbEntryFields : Fields :=
  [("vpn", u64), ("ppn", u64), ("host_base", pointer), ("perm", u8), ("level", u8), ("dirty", u8), ("valid", u8)]

def uartFields : Fields :=
  [("rbr", u8), ("thr", u8), ("ier", u8), ("iir", u8), ("lcr", u8), ("mcr", u8), ("lsr", u8), ("msr", u8), ("scr", u8),
    ("dll", u8), ("dlm", u8), ("rx_ready", int), ("thre_pending", int), ("tx_callback", pointer),
    ("tx_opaque", pointer), ("rx_buf", u8.array 256), ("rx_head", int), ("rx_tail", int)]

def clintFields : Fields := [("mtimecmp", u64), ("mtime", u64)]

def plicFields : Fields :=
  [("priority", u32.array 64), ("pending", u32.array 2), ("enable", (u32.array 2).array 2),
    ("threshold", u32.array 2), ("claim", u32.array 2)]

def virtioQueueFields : Fields :=
  [("num", u32), ("ready", u32), ("desc_addr", u64), ("avail_addr", u64), ("used_addr", u64), ("last_avail", u16)]

def virtioDevFields : Fields :=
  [("device_id", u32), ("irq", u32), ("status", u32), ("int_status", u32), ("dev_features_sel", u32),
    ("drv_features_sel", u32), ("dev_features", u64), ("drv_features", u64), ("queue_sel", u32), ("config_gen", u32),
    ("queues", (struct virtioQueueFields).array 4), ("disk_data", pointer), ("disk_size", u64), ("slirp", pointer),
    ("ram", pointer), ("ram_size", u64), ("rx_ring_buffers", (u8.array 2048).array 256),
    ("rx_ring_sizes", u64.array 256), ("rx_head", int), ("rx_tail", int), ("mark_dirty", pointer),
    ("mark_dirty_opaque", pointer), ("blk_reads", u64), ("blk_writes", u64), ("blk_bytes_read", u64),
    ("blk_bytes_written", u64)]

def dbgFields : Fields :=
  [("watch_addr", u64), ("watch_size", u32), ("watch_active", int), ("break_pc", u64), ("break_active", int),
    ("break_halt", int), ("debug_halt", int),
    ("store_log", (struct [("pc", u64), ("addr", u64), ("value", u64), ("size", u32), ("instret", u64)]).array 64),
    ("store_log_count", int),
    ("break_log", (struct [("pc", u64), ("x", u64.array 32), ("f", u64.array 32), ("sp", u64),
      ("instret", u64)]).array 16),
    ("break_log_count", int), ("console_log", (struct [("instret", u64), ("console_pos", int)]).array 256),
    ("console_log_count", int),
    ("trap_log", (struct [("cause", u64), ("tval", u64), ("pc", u64), ("instret", u64), ("priv", u8), ("a7", u64),
      ("a0", u64), ("a1", u64), ("a2", u64), ("ret_a0", u64), ("ret_pc", u64)]).array 4096),
    ("trap_log_count", int), ("trap_log_last_slot", int),
    ("inst_log", (struct [("pc", u64), ("insn", u32), ("instret", u64)]).array 4096), ("inst_log_idx", int)]

/-- The fields of `struct rv64_cpu` before `prof`. -/
def cpuFields : Fields :=
  [("x", u64.array 32), ("pc", u64), ("f", u64.array 32), ("fcsr", u32), ("priv", u8), ("mstatus", u64), ("misa", u64),
    ("medeleg", u64), ("mideleg", u64), ("mie", u64), ("mtvec", u64), ("mcounteren", u64), ("mscratch", u64),
    ("mepc", u64), ("mcause", u64), ("mtval", u64), ("mip", u64), ("satp", u64), ("sscratch", u64), ("sepc", u64),
    ("scause", u64), ("stval", u64), ("stvec", u64), ("scounteren", u64), ("stimecmp", u64), ("menvcfg", u64),
    ("cycle", u64), ("instret", u64), ("pmpcfg", u64.array 4), ("pmpaddr", u64.array 16),
    ("reservation", struct reservationFields), ("tlb", (struct tlbEntryFields).array 4096), ("uart", struct uartFields),
    ("clint", struct clintFields), ("plic", struct plicFields), ("virtio_blk", struct virtioDevFields),
    ("virtio_net", struct virtioDevFields), ("virtio_devs", pointer.array 2), ("id", u64), ("ram_size", u64),
    ("jit", pointer), ("pending_irq_check", u8), ("halted", int), ("error", int), ("run_exit_reason", int),
    ("dbg", struct dbgFields)]

/-- `offsetof(struct rv64_cpu, prof.exec_cycles)`: the first field of the `prof` record of 64-bit counters. -/
def offExec : Nat := roundUp (cpuFields.finish 0) 8

end CpuLayout
end PgLinux
