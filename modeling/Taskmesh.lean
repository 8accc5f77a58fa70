import Taskmesh.Collections.Allocation
import Taskmesh.Collections.KeyedSum
import Taskmesh.Collections.MachineInt
import Taskmesh.Collections.QueueFamily
import Taskmesh.Collections.RingWalk
import Taskmesh.Collections.SetIndex
import Taskmesh.Contract.Task
import Taskmesh.Contract.Policy
import Taskmesh.Engine.Shared
import Taskmesh.Engine.State
import Taskmesh.Engine.Transition
import Taskmesh.Engine.Pending
import Taskmesh.Engine.Scheduler
import Taskmesh.Engine.Reference
import Taskmesh.Engine.Admission
import Taskmesh.Engine.Memory
import Taskmesh.Engine.Validation
import Taskmesh.Engine.Governor
import Taskmesh.Systems.Runs
import Taskmesh.Systems.Traces
import Taskmesh.Engine.Intake
import Taskmesh.Engine.System
import Taskmesh.Engine.Delivery
import Taskmesh.Engine.Observation
import Taskmesh.Serde.Json
import Taskmesh.Serde.Derive
import Taskmesh.Contract.Topology
import Taskmesh.Ingress.Shape
import Taskmesh.Ingress.Scan
import Taskmesh.Ingress.Parse
import Taskmesh.Ingress.Grammar
import Taskmesh.Ingress.Wire
import Taskmesh.Host.Drain
import Taskmesh.Engine.Frames
import Taskmesh.Engine.Proofs.SchedulerProofs
import Taskmesh.Engine.Proofs.RingProofs
import Taskmesh.Engine.Proofs.QueueProofs
import Taskmesh.Engine.Proofs.TransitionProofs
import Taskmesh.Engine.Schedule
import Taskmesh.Engine.Proofs.SelectionProofs
import Taskmesh.Engine.Moves
import Taskmesh.Engine.Proofs.MovesProofs
import Taskmesh.Engine.Proofs.SectionProofs
import Taskmesh.Engine.Proofs.SystemProofs
import Taskmesh.Engine.Proofs.QueueEffectProofs
import Taskmesh.Engine.Proofs.QueueInvariantProofs
import Taskmesh.Engine.Proofs.EffectProofs
import Taskmesh.Engine.Proofs.OccupancyProofs
import Taskmesh.Engine.Proofs.LedgerProofs
import Taskmesh.Engine.Proofs.PoolProofs
import Taskmesh.Engine.Proofs.RootProofs
import Taskmesh.Engine.Proofs.TicketBookProofs
import Taskmesh.Engine.Proofs.TicketProofs
import Taskmesh.Engine.Proofs.StateInvariantProofs
import Taskmesh.Engine.Proofs.ThreadProofs
import Taskmesh.Engine.Proofs.SystemInvariantProofs
import Taskmesh.Engine.Proofs.ValidationProofs
import Taskmesh.Engine.Proofs.ScheduleProofs
import Taskmesh.Engine.Proofs.ClassMoveProofs
import Taskmesh.Engine.Proofs.ConservationProofs
import Taskmesh.Engine.Proofs.CreditProofs
import Taskmesh.Engine.Proofs.DeficitProofs
import Taskmesh.Engine.Proofs.RotationProofs
import Taskmesh.Engine.Proofs.QuietProofs
import Taskmesh.Engine.Proofs.PromotionProofs
import Taskmesh.Engine.Proofs.ContinuationProofs
import Taskmesh.Engine.Proofs.TicketLifeProofs
import Taskmesh.Engine.Proofs.OvertakeProofs
import Taskmesh.Engine.Proofs.IdentityProofs
import Taskmesh.Engine.Proofs.RefusalProofs
import Taskmesh.Engine.Proofs.GateProofs
import Taskmesh.Engine.Proofs.IdleProofs
import Taskmesh.Engine.Proofs.FaultProofs
import Taskmesh.Engine.Proofs.OverflowProofs
import Taskmesh.Engine.Proofs.WakerProofs
import Taskmesh.Engine.Proofs.HandoverProofs
import Taskmesh.Engine.Proofs.HostCallProofs
import Taskmesh.Engine.Proofs.DeliveryProofs
import Taskmesh.Engine.Proofs.CustodyProofs
import Taskmesh.Engine.Proofs.SettlementProofs
import Taskmesh.Engine.Proofs.ShareProofs
import Taskmesh.Engine.Proofs.SweepProofs
import Taskmesh.Engine.Proofs.IntakeProofs
import Taskmesh.Engine.Proofs.OracleProofs
import Taskmesh.Engine.Proofs.RequirementProofs
import Taskmesh.Engine.Proofs.MemoryProofs
import Taskmesh.Engine.Proofs.ChoiceProofs
import Taskmesh.Engine.Proofs.BudgetProofs
import Taskmesh.Engine.Proofs.RetentionProofs
import Taskmesh.Engine.Proofs.RoundProofs
import Taskmesh.Engine.Proofs.ArrivalProofs
import Taskmesh.Engine.Proofs.RebaseProofs
import Taskmesh.Engine.Proofs.UnboundedProofs
import Taskmesh.Host.Proofs.DrainProofs
import Taskmesh.Ingress.Proofs.ScanProofs
import Taskmesh.Ingress.Proofs.WireProofs
import Taskmesh.Engine.Panic
import Taskmesh.Engine.PanicSystem
import Taskmesh.Engine.Proofs.PanicAdmissionProofs
import Taskmesh.Engine.Proofs.PanicFreeProofs
import Taskmesh.Engine.Proofs.AnswerProofs
import Taskmesh.Engine.Proofs.TransferProofs
import Taskmesh.Engine.Proofs.CapacityProofs
import Taskmesh.Engine.Proofs.NestedWaitProofs
import Taskmesh.Engine.Proofs.OrderProofs
import Taskmesh.Engine.Proofs.GrantProofs
import Taskmesh.Collections.Slots
import Taskmesh.Engine.Proofs.CallProofs
import Taskmesh.Host.Cancel
import Taskmesh.Host.Lease
import Taskmesh.Host.Proofs.HandoffProofs
import Taskmesh.Host.Proofs.RuntimeProofs
import Taskmesh.Host.Proofs.HolderProofs
import Taskmesh.Host.Proofs.ResponseProofs
import Taskmesh.Host.Proofs.PlanProofs
