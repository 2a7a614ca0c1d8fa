import AmpRack.GuardedRun
import AmpRack.VectorEdits
import AmpRack.BoxOrder
import AmpRack.FifoRing
import AmpRack.TextScan
import AmpRack.HalfEven
import AmpRack.BinaryFormat
import AmpRack.FloatText
import AmpRack.JsonText
import AmpRack.JsonRoundTrip
import AmpRack.JsonMembers
import AmpRack.KeyOrder
import AmpRack.Framing
import AmpRack.Utf8Text
import AmpRack.JsonBraces
import AmpRack.JsonPretty
import AmpRack.Plugin
import AmpRack.LadspaControl
import AmpRack.PortLoaders
import AmpRack.PluginUI
import AmpRack.Engine
import AmpRack.Rack
import AmpRack.RackTouch
import AmpRack.RackInvariant
import AmpRack.RackLoad
import AmpRack.RackOrder
import AmpRack.ReadyCards
import AmpRack.CardActions
import AmpRack.Preset
import AmpRack.SavedPreset
import AmpRack.MachineInts
import AmpRack.SendLoop
import AmpRack.SyncFraming
import AmpRack.MapExchange
import AmpRack.PresetImport
import AmpRack.SyncStores
import AmpRack.DotPath
import AmpRack.ImportPaths
import AmpRack.ControlValues
import AmpRack.SliderValues
import AmpRack.PresetIdentity
import AmpRack.PresetOrder
import AmpRack.ChainEdits
import AmpRack.Process
import AmpRack.ArrayBounds
import AmpRack.ChainMoves
import AmpRack.ChainStores
import AmpRack.AudioQueue
import AmpRack.Recording
import AmpRack.Recorder
import AmpRack.Mp3File
import AmpRack.ServerLoop
import AmpRack.CutConnection
import AmpRack.PresetFiles
import AmpRack.MapValues
import AmpRack.PresetTabs
import AmpRack.PresetSteps
import AmpRack.JsonFiles
import AmpRack.PresetExport
import AmpRack.PresetDelete
import AmpRack.PresetLoader
import AmpRack.ModelFiles
import AmpRack.PresetGuards
import AmpRack.LibraryPages
import AmpRack.Interning
import AmpRack.UridMap
import AmpRack.CallbackTable
import AmpRack.StringPositions
import AmpRack.SyncAddress
import AmpRack.LibraryBox
import AmpRack.KeyGroups
import AmpRack.EffectCatalogue
import AmpRack.EffectBrowser
import AmpRack.BoundedWriter
import AmpRack.AtomForge
import AmpRack.AtomPorts
import AmpRack.SortedSlots
import AmpRack.CString
import AmpRack.Symap
import AmpRack.UridAgreement
import AmpRack.RingSpans
import AmpRack.JackRing
import AmpRack.RingCalls
import AmpRack.RingThreads
import AmpRack.PortWiring
import AmpRack.HostOptions
import AmpRack.LastEvent
import AmpRack.BrowserFilters
import AmpRack.Launches
import AmpRack.LaunchFavorites
import AmpRack.LaunchCatalogue
import AmpRack.LaunchSettings
import AmpRack.RowClicks
import AmpRack.FileTypes
import AmpRack.LaunchPresets
import AmpRack.RaggedRows
import AmpRack.KnobLayout
import AmpRack.AudioThreads
import AmpRack.MapGossip
import AmpRack.DeviceSync
import AmpRack.Custody
import AmpRack.WordBytes
import AmpRack.VRingBuffer
import AmpRack.BufferCirculation
import AmpRack.TimeStamps
import AmpRack.RecordingFiles
