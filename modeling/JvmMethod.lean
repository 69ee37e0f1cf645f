import JvmMethod.LabelTable
import JvmMethod.Descriptor.Reader
import JvmMethod.Element.Text
import JvmMethod.Terminal
import JvmMethod.Structured
import JvmMethod.LocalShift
import JvmMethod.Assembly
import JvmMethod.Command.Injection
import JvmMethod.Command.Directory
import JvmMethod.Main
import JvmMethod.Proofs.TerminalAgreement
import JvmMethod.Proofs.CodeDecoding
import JvmMethod.Proofs.FragmentInjection
import JvmMethod.Proofs.EncodedTargets
import JvmMethod.Proofs.WellFormedElements
import JvmMethod.Proofs.HostSlots
import JvmMethod.Proofs.BlockStack
import JvmMethod.Proofs.EmittedLabels
import JvmMethod.Proofs.BlockReachability
import JvmMethod.Proofs.StructuredRuns
import JvmMethod.Proofs.ConditionalCode
import JvmMethod.Proofs.Conditionals
import JvmMethod.Proofs.TransformComposition
import JvmMethod.Proofs.BlockInterference
import JvmMethod.Proofs.LiveSlots
import JvmMethod.Proofs.DescriptorReading
import JvmMethod.Proofs.AssemblyRoundTrip
import JvmMethod.Proofs.ShiftHistory
import JvmMethod.Proofs.InjectedMethod
import JvmMethod.Proofs.SlotAllocation
import JvmMethod.Proofs.NeededLocals
import JvmMethod.Proofs.BlockHistory
import JvmMethod.Proofs.BlockRegions
import JvmMethod.Proofs.RefusalsInBlocks
import JvmMethod.Proofs.SideTables
import JvmMethod.Proofs.NamingSessions
import JvmMethod.Proofs.KindAgreement
import JvmMethod.Proofs.PendingFixups
import JvmMethod.Proofs.LabelBindings
import JvmMethod.Proofs.SlotWrites
