import Bab750.Foundation.Bytes
import Bab750.Foundation.StringTable
import Bab750.Foundation.Run
import Bab750.Foundation.Words
import Bab750.Foundation.Memory
import Bab750.Support.Crc32
import Bab750.Support.Strtoul
import Bab750.Environment.Lookup
import Bab750.Environment.Image
import Bab750.Environment.Setenv
import Bab750.Environment.Deletion
import Bab750.Environment.Append
import Bab750.Environment.StoreLaw
import Bab750.Environment.Calls
import Bab750.Environment.Updates
import Bab750.Environment.Nvram
import Bab750.Environment.Persistence
import Bab750.Environment.EarlyLookup
import Bab750.Network.Receive
import Bab750.Network.Tftp
import Bab750.Network.TftpTransfer
import Bab750.Network.TftpOptions
import Bab750.Console.Serial
import Bab750.Console.Markers
import Bab750.Console.FlashScript
import Bab750.Console.Download
import Bab750.Console.Monitor
import Bab750.Console.Protocol
import Bab750.Command.Line
import Bab750.Command.Run
import Bab750.Flash.Program
import Bab750.Flash.Write
import Bab750.Flash.Ranges
import Bab750.Flash.Commands
import Bab750.Console.Acceptance
import Bab750.Flash.Frame
import Bab750.Command.Quoting
import Bab750.Console.BootArguments
import Bab750.Console.Dialog
import Bab750.Console.DialogScripts
import Bab750.Console.Marks
import Bab750.Console.Probes
import Bab750.Console.ResetWatch
import Bab750.Console.Restart
import Bab750.Environment.Copies
import Bab750.Environment.NvramFrame
import Bab750.Foundation.OnesComplement
import Bab750.Foundation.Ring
import Bab750.Network.Parameters
import Bab750.Network.ReceiveRing
import Bab750.Network.Send
import Bab750.Boot.Bootm
import Bab750.Boot.Mkimage
import Bab750.Boot.Subcommands
import Bab750.Boot.Verified
import Bab750.Foundation.HexText
import Bab750.Load.SRecord
import Bab750.Srom.Bus
import Bab750.Srom.Eeprom
import Bab750.Srom.Lines
import Bab750.Srom.Recovery
import Bab750.Command.Arguments
import Bab750.Command.Expansion
import Bab750.Command.MacroBuffer
import Bab750.Command.Escapes
import Bab750.Command.Separators
import Bab750.Console.Programming
import Bab750.Flash.Bounds
import Bab750.Flash.ExactCommands
import Bab750.Flash.Lengths
import Bab750.Foundation.Shift
import Bab750.Load.Kermit
import Bab750.Load.KermitIntegrity
import Bab750.Load.KermitRuns
import Bab750.Network.Nfs
import Bab750.Network.NfsRuns
import Bab750.Srom.Microwire
import Bab750.Srom.MicrowireRuns
import Bab750.Srom.StationAddress
import Bab750.Console.LineEditor
import Bab750.Environment.Editenv
import Bab750.Network.Deferred
import Bab750.Network.Bootp
import Bab750.Network.BootpOrder
import Bab750.Boot.Lmb
import Bab750.Boot.LmbAlloc
import Bab750.Boot.LmbRuns
import Bab750.Network.NfsBounds
import Bab750.Network.NfsStale
import Bab750.Network.NfsPath
import Bab750.Environment.Unset
import Bab750.Foundation.ShiftRegister
import Bab750.Srom.Checksum
import Bab750.Environment.LookupBounds
import Bab750.Pci.Allocation
import Bab750.Pci.Translation
import Bab750.Pci.ScanTree
import Bab750.Foundation.FileTree
import Bab750.Foundation.PlainPaths
import Bab750.Srom.Dialog
import Bab750.Staging.Confinement
import Bab750.Foundation.LinkCycles
import Bab750.Staging.Closure
import Bab750.Staging.SelfContained
import Bab750.Staging.WorklistEnds
import Bab750.Staging.ExportedRootfs
import Bab750.Support.BitwiseCrc32
import Bab750.Console.Decoding
import Bab750.Console.ErrorLines
import Bab750.Console.ErrorReports
import Bab750.Boot.Listing
import Bab750.Staging.LegacyImage
import Bab750.Staging.LinkChains
import Bab750.Staging.RunEnds
import Bab750.Network.LateFragment
import Bab750.Load.YmodemFaults
import Bab750.Environment.StationAddresses
import Bab750.Jffs2.Lookup
