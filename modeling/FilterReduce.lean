import FilterReduce.RunTrace
import FilterReduce.EarlyExit
import FilterReduce.CString
import FilterReduce.ArrayMap
import FilterReduce.Reduction
import FilterReduce.Helpers
import FilterReduce.CopyoutProbe
import FilterReduce.ReaditerKern
import FilterReduce.BpfbenchKern
import FilterReduce.TailcallKern
import FilterReduce.CopyoutIntercept
import FilterReduce.CopyoutSystem
import FilterReduce.Records
import FilterReduce.ReaditerRequest
import FilterReduce.WindowRecords
import FilterReduce.StagedBuffer
import FilterReduce.ExactResults
import FilterReduce.UserMemory
import FilterReduce.OverrideKern
import FilterReduce.UserWrites
import FilterReduce.OverrideExecUser
import FilterReduce.ProcfsRead
import FilterReduce.ReadTracepoint
import FilterReduce.BuffermapKern
import FilterReduce.ReadbuffKern
import FilterReduce.CaptureUser
import FilterReduce.BuffermapRuns
import FilterReduce.ReadbuffRuns
import FilterReduce.StateProgram
import FilterReduce.ByteLayout
import FilterReduce.ElfObject
import FilterReduce.BpfLoad
import FilterReduce.MapsSection
import FilterReduce.Relocation
import FilterReduce.LoadMaps
import FilterReduce.AttachProgram
import FilterReduce.LoaderMoves
import FilterReduce.LoadPrograms
import FilterReduce.LinkPass
import FilterReduce.LoadFile
import FilterReduce.LoadSafety
import FilterReduce.Linking
import FilterReduce.ProgArray
import FilterReduce.TailcallSystem
import FilterReduce.UserBench
import FilterReduce.ProcfsExperiment
import FilterReduce.ProbereadKern
import FilterReduce.CircularBuffer
import FilterReduce.PerfArray
import FilterReduce.SockKern
