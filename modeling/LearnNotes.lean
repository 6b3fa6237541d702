import LearnNotes.Lib.Machine
import LearnNotes.Lib.Lease
import LearnNotes.Memory.Manager
import LearnNotes.Memory.Pool
import LearnNotes.Memory.Handles
import LearnNotes.Graphics.Config
import LearnNotes.Graphics.Texture
import LearnNotes.Graphics.ConfigFlush
import LearnNotes.Graphics.Mesh
import LearnNotes.Graphics.World
import LearnNotes.Lib.Ownership
import LearnNotes.Graphics.Ownership
import LearnNotes.Graphics.BindCache
import LearnNotes.Graphics.DrawLoop
import LearnNotes.Graphics.Draw
import LearnNotes.Lib.Bytes
import LearnNotes.Net.Package
import LearnNotes.Net.Transfer
import LearnNotes.Net.RoundTrip
import LearnNotes.Net.Framing
import LearnNotes.Lib.Ring
import LearnNotes.Queue.Circular
import LearnNotes.Queue.Fifo
import LearnNotes.Lib.SpinLock
import LearnNotes.Queue.Concurrent
import LearnNotes.Lib.Objects
import LearnNotes.Utils.DynLib
import LearnNotes.Lib.Ledger
import LearnNotes.Graphics.Shader
import LearnNotes.Graphics.ShaderOwnership
import LearnNotes.Graphics.NameOwnership
import LearnNotes.Graphics.MeshBuffers
import LearnNotes.Memory.Valid
import LearnNotes.Graphics.MeshTextures
import LearnNotes.Lib.Table
import LearnNotes.Signal.SignalSlot
import LearnNotes.Signal.Emit
import LearnNotes.Queue.Lifetime
import LearnNotes.Graphics.Model
import LearnNotes.Graphics.ModelLoad
import LearnNotes.Graphics.ModelWorld
import LearnNotes.Graphics.ConfigPolicy
import LearnNotes.Graphics.UnitTable
import LearnNotes.Net.Endpoint
import LearnNotes.Net.Link
import LearnNotes.Net.Conversation
import LearnNotes.Net.Leaving
import LearnNotes.Net.Integrity
import LearnNotes.Utils.Lang
import LearnNotes.Utils.ErrorCategory
import LearnNotes.Web.PollServer
import LearnNotes.Lib.ReadersWriters
import LearnNotes.Thread.SharedMutex
import LearnNotes.Lib.Blocks
import LearnNotes.Thread.ParallelFilter
import LearnNotes.Lib.Crc
import LearnNotes.Net.Crc32
import LearnNotes.Utils.HexCode
import LearnNotes.Utils.LangPackage
import LearnNotes.Graphics.SceneOrder
import LearnNotes.Memory.Throwing
import LearnNotes.Queue.Unwinding
import LearnNotes.Graphics.MaterialTextures
import LearnNotes.Graphics.SourceFile
import LearnNotes.Graphics.ShaderBuild
import LearnNotes.Graphics.ShaderSources
import LearnNotes.Lib.CrcPolynomial
import LearnNotes.Net.Chaining
import LearnNotes.Net.VersionCode
import LearnNotes.Net.Sending
import LearnNotes.Net.ShortHeader
import LearnNotes.Lib.CountedLoop
import LearnNotes.Lib.Digits
import LearnNotes.Factorial.Cpp
import LearnNotes.Factorial.C
import LearnNotes.Factorial.Buffer
import LearnNotes.Factorial.Cached
import LearnNotes.Memory.Aligned
import LearnNotes.Graphics.Camera
import LearnNotes.Lib.BlockedLoop
import LearnNotes.Simd.Saxpy
import LearnNotes.Lib.Nest
import LearnNotes.Matrix.LoopOrder
import LearnNotes.Matrix.MarkovChain
import LearnNotes.Web.ThreadServer
import LearnNotes.Lib.Termination
import LearnNotes.Web.ProcessServer
import LearnNotes.Lib.CString
import LearnNotes.Xml.CodeConv
import LearnNotes.Utils.ExePath
import LearnNotes.Lib.Comparison
import LearnNotes.Graphics.ConfigEquality
import LearnNotes.Web.Sockets
import LearnNotes.Web.EpollServer
import LearnNotes.Web.EpollDelivery
import LearnNotes.Web.EpollMessages
import LearnNotes.Web.SelectServer
import LearnNotes.Web.ThreadWorkers
import LearnNotes.Web.ProcessChildren
import LearnNotes.Web.ProcessTurns
import LearnNotes.Verilog.FSM
import LearnNotes.Verilog.FlipFlop
import LearnNotes.Lib.SortUnique
import LearnNotes.Utils.LangSearch
import LearnNotes.Utils.LangApi
import LearnNotes.Lib.Rows
import LearnNotes.Graphics.Upload
import LearnNotes.Graphics.ModelDraw
import LearnNotes.Thread.ConditionVariable
import LearnNotes.Web.Udp
import LearnNotes.Lib.Workers
import LearnNotes.Matrix.Transpose
import LearnNotes.Utils.Symbols
