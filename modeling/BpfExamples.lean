import BpfExamples.Kvm.KmallocLimits
import BpfExamples.Kvm.Refusals
import BpfExamples.Kvm.Access
import BpfExamples.Kvm.MmapChoice
import BpfExamples.Kvm.ExecveLeaks
import BpfExamples.Kvm.ElfStack
import BpfExamples.Kvm.InitialStack
import BpfExamples.Kvm.HypercallBounds
import BpfExamples.Kvm.FdRuns
import BpfExamples.Kvm.SyscallFrames
import BpfExamples.Kvm.OpenPath
import BpfExamples.Kvm.CallRuns
import BpfExamples.Kvm.MmapPages
import BpfExamples.Kvm.ValidElf
import BpfExamples.Kvm.Program
import BpfExamples.Kvm.Ports
import BpfExamples.Kvm.TaskRuns
import BpfExamples.Sockmap.Proxy
import BpfExamples.Trace.Tracer
import BpfExamples.Http.Agreement
import BpfExamples.Http.Segments
import BpfExamples.Http.Blocks
import BpfExamples.Http.Cycle
import BpfExamples.Http.Checksum
import BpfExamples.Http.Verdict
import BpfExamples.Http.Buffers
import BpfExamples.Xdp.SecurityGroup
import BpfExamples.Xdp.TcpPush
import BpfExamples.Lktm.Sampleblk
import BpfExamples.Lktm.RequestQueue
import BpfExamples.Kprobe.FileRead
import BpfExamples.Loader.AnyFile
import BpfExamples.Loader.FileCode
