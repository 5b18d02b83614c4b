import FroggyKVM.Threads.Exclusion
import FroggyKVM.Threads.Blocked
import FroggyKVM.Threads.RunQueues
import FroggyKVM.Audio.Players
import FroggyKVM.Audio.WaveSafety
import FroggyKVM.Audio.SmfSafety
import FroggyKVM.Audio.Headroom
import FroggyKVM.Audio.Tone
import FroggyKVM.Audio.RingFifo
import FroggyKVM.Audio.Adpcm
import FroggyKVM.Audio.Pacing
import FroggyKVM.Audio.Duration
import FroggyKVM.Input.Balance
import FroggyKVM.Input.HeapSetting
import FroggyKVM.Rms.Walk
import FroggyKVM.Rms.Accounting
import FroggyKVM.Rms.FileList
import FroggyKVM.Rms.Limit
import FroggyKVM.Rms.Coherence
import FroggyKVM.Rms.Truncate
import FroggyKVM.Rms.KeepUpdated
import FroggyKVM.Rms.Listeners
import FroggyKVM.Rms.Handles
import FroggyKVM.Gc.Complete
import FroggyKVM.Gc.Resize
import FroggyKVM.Inflate.TableFill
import FroggyKVM.Inflate.Delivered
import FroggyKVM.Inflate.InputInside
import FroggyKVM.Inflate.TableLookup
import FroggyKVM.Inflate.DoInflate
import FroggyKVM.Lib.Canonical
import FroggyKVM.TreeIndex.Map
import FroggyKVM.Lib.BTree
import FroggyKVM.Zip.HandleBudget
import FroggyKVM.Zip.EndFound
import FroggyKVM.Zip.EntryCache
import FroggyKVM.Zip.ReadEntry
import FroggyKVM.Zip.ReadSafety
import FroggyKVM.Puff.Streams
import FroggyKVM.Zip.EndWindows
import FroggyKVM.Manifest.Readers
import FroggyKVM.Manifest.MainClass
import FroggyKVM.Pcsl.Allocator
import FroggyKVM.Pcsl.Escape
import FroggyKVM.Pcsl.WellFormed
import FroggyKVM.Pcsl.RoundTrip
import FroggyKVM.M3g.Opaque
import FroggyKVM.M3g.Render
import FroggyKVM.Timers.Attended
import FroggyKVM.Timers.Heap
import FroggyKVM.Timers.TaskStates
import FroggyKVM.Events.Monitor
import FroggyKVM.Events.Strings
import FroggyKVM.Game.CellScan
import FroggyKVM.Symbols.Decoding
import FroggyKVM.Symbols.SymbolTable
import FroggyKVM.Symbols.StringTable
import FroggyKVM.Graphics.OutlineExact
import FroggyKVM.Lcdui.Clip
import FroggyKVM.Graphics.PixelPaths
import FroggyKVM.Gc.DeadRanges
import FroggyKVM.Game.TilePaint
import FroggyKVM.Game.SpriteRuns
import FroggyKVM.Calendar.RoundTrip
