import GoLibtor.Transition.Run
import GoLibtor.Transition.Program
import GoLibtor.Transition.Triple
import GoLibtor.Text.Regexp
import GoLibtor.Text.Words
import GoLibtor.Text.Strings
import GoLibtor.Text.Language
import GoLibtor.Text.Lines
import GoLibtor.Text.Occurrences
import GoLibtor.Search.Scan
import GoLibtor.Files.Store
import GoLibtor.Memory.Heap
import GoLibtor.Memory.Descriptors
import GoLibtor.Memory.Primitives
import GoLibtor.Process.Model
import GoLibtor.Process.Invariant
import GoLibtor.Process.Wait
import GoLibtor.Process.Exit
import GoLibtor.Process.Creator
import GoLibtor.Process.Ownership
import GoLibtor.Process.OneTor
import GoLibtor.Process.TorApi
import GoLibtor.Process.TorApiSpec
import GoLibtor.Process.Embedded
import GoLibtor.Process.Layout
import GoLibtor.Process.Stepped
import GoLibtor.Process.Host
import GoLibtor.Process.Refinement
import GoLibtor.Process.MemorySafety
import GoLibtor.Process.ControlSocket
import GoLibtor.Process.Sockets
import GoLibtor.Build.Extract
import GoLibtor.Build.LibeventObjects
import GoLibtor.Build.LibeventScan
import GoLibtor.Build.OpenSSLSources
import GoLibtor.Build.TorSources
import GoLibtor.Build.Tags
import GoLibtor.Build.ReleaseNames
import GoLibtor.Build.Releases
import GoLibtor.Build.OpenSSLVersion
import GoLibtor.Build.Wrapper
import GoLibtor.Build.Machine
import GoLibtor.Build.Wrap
import GoLibtor.Build.Generate
import GoLibtor.Build.Steps
import GoLibtor.Build.Frame
import GoLibtor.Build.Returns
import GoLibtor.Build.GoFiles
import GoLibtor.Build.CompiledOnce
import GoLibtor.Build.Upstream
import GoLibtor.Build.Phases
import GoLibtor.Build.Headers
import GoLibtor.Build.Lock
import GoLibtor.Build.Complete
import GoLibtor.Build.Regenerate
import GoLibtor.Build.Wipe
import GoLibtor.Build.Sources
import GoLibtor.Build.VersionData
import GoLibtor.Build.VersionHeader
import GoLibtor.Build.Footprint
import GoLibtor.Build.ForcedHeaders
