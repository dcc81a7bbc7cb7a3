import SkbTracer.Lib.Transition
import SkbTracer.Lib.Bytes
import SkbTracer.Lib.Memory
import SkbTracer.Lib.Splice
import SkbTracer.Lib.Ledger
import SkbTracer.Bpf.Insn
import SkbTracer.Bpf.Cbpf
import SkbTracer.Bpf.Ebpf
import SkbTracer.Bpf.EbpfRun
import SkbTracer.Bpf.Verifier
import SkbTracer.Pcap2Bpf.Convert
import SkbTracer.Pcap2Bpf.Expansion
import SkbTracer.Pcap2Bpf.Layout
import SkbTracer.Pcap2Bpf.PacketLoad
import SkbTracer.Pcap2Bpf.Blocks
import SkbTracer.Pcap2Bpf.BlockSpec
import SkbTracer.Pcap2Bpf.Simulation
import SkbTracer.Pcap2Bpf.MemSafe
import SkbTracer.Pcap2Bpf.Validity
import SkbTracer.Pcap2Bpf.Inject
import SkbTracer.Pcap2Bpf.Compile
import SkbTracer.Trace.PcapFilters
import SkbTracer.Trace.PrepareLoad
import SkbTracer.Kprobe.SkBuff
import SkbTracer.Kprobe.FilterPcap
import SkbTracer.Libc.Strtoul
import SkbTracer.Libc.Process
import SkbTracer.Libc.Getopt
import SkbTracer.Cfg.Netns
import SkbTracer.Cfg.Options
import SkbTracer.Kprobe.Tuple
import SkbTracer.Kprobe.Event
import SkbTracer.Lib.Packed
import SkbTracer.Lib.RecordRing
import SkbTracer.Kprobe.Record
import SkbTracer.Trace.Init
import SkbTracer.Kprobe.Packet
import SkbTracer.Trace.Request
import SkbTracer.Pcap2Bpf.Accept
import SkbTracer.Pcap2Bpf.Passes
import SkbTracer.Pcap2Bpf.Retarget
import SkbTracer.Trace.Links
import SkbTracer.Output.DevCache
import SkbTracer.Lib.Footprint
import SkbTracer.Kprobe.OwnBytes
import SkbTracer.Lib.OrdMap
import SkbTracer.Lib.Regex
import SkbTracer.Symdb.Modules
import SkbTracer.Symdb.AvailFuncs
import SkbTracer.Lib.Chase
import SkbTracer.Symdb.ParamPos
import SkbTracer.Symdb.SkbFuncs
import SkbTracer.Trace.Attach
import SkbTracer.Trace.Run
import SkbTracer.Libc.InetNtop
import SkbTracer.Output.Tuple
import SkbTracer.Pcap2Bpf.Shift
import SkbTracer.Pcap2Bpf.Bounds
import SkbTracer.Cfg.ParseU32
import SkbTracer.Libc.InetPton
import SkbTracer.Output.Time
import SkbTracer.Lib.Columns
import SkbTracer.Lib.History
import SkbTracer.Output.Comm
import SkbTracer.Kprobe.Ports
import SkbTracer.Output.Lossless
import SkbTracer.Output.Entry
import SkbTracer.Output.Table
import SkbTracer.Output.Lines
import SkbTracer.App.Traced
import SkbTracer.App.Requested
import SkbTracer.Symdb.Init
import SkbTracer.App.Main
import SkbTracer.Cfg.CommandLine
