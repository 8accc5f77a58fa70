import Taskmesh.Contract.Task

/-!
# Worker topology

The topology vocabulary of the contract crate (`topology.rs`). A `usize` is that of a 64-bit host.
-/

namespace Taskmesh

/-- How the CPU pool is sized. -/
inductive CpuMode where
  | auto
  | fixed (workers : UInt64)
  deriving DecidableEq

/-- Capacity source for a host-owned physical worker domain. -/
inductive PhysicalDomainMode where
  | auto
  | fixed (workers : UInt64)
  deriving DecidableEq

structure PhysicalDomainTopology where
  sharedBlocking : PhysicalDomainMode
  dedicated : PhysicalDomainMode
  deriving DecidableEq

/-- `PhysicalDomainTopology::default`. -/
def PhysicalDomainTopology.new : PhysicalDomainTopology := ⟨.auto, .auto⟩

structure CpuPoolConfig where
  mode : CpuMode
  reserveCores : UInt64
  minWorkers : UInt64
  maxWorkers : UInt64
  deriving DecidableEq

/-- The declared worker pools of a host. -/
structure TopologyConfig where
  cpu : CpuPoolConfig
  blockingThreads : UInt64
  largeStackSlots : UInt64
  maintenanceWorkers : UInt64
  localRuntimeSlots : UInt64
  physicalDomains : PhysicalDomainTopology
  deriving DecidableEq

end Taskmesh
