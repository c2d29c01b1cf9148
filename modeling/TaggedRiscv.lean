import TaggedRiscv.Coherence.Safety
import TaggedRiscv.TagCache.Grants
import TaggedRiscv.TagCache.Concurrent
import TaggedRiscv.Nasti.MuxRouting
import TaggedRiscv.Uncore.SuperChannel
import TaggedRiscv.Vm.TlbSound
import TaggedRiscv.Vm.PtwWalk
import TaggedRiscv.L1.Reservation
import TaggedRiscv.L1.TagWrites
import TaggedRiscv.L1.IoMshr
import TaggedRiscv.L1.HitPath
import TaggedRiscv.TagCache.AddressWords
import TaggedRiscv.Bbl.Conservation
import TaggedRiscv.Core.DebugTrap
import TaggedRiscv.Core.TagTrap
import TaggedRiscv.Core.InvalidTag
import TaggedRiscv.Uncore.Serializer
import TaggedRiscv.Uncore.FinishUnit
import TaggedRiscv.Pcr.MapUpdate
import TaggedRiscv.Nasti.ConverterReads
import TaggedRiscv.Nasti.LiteAccess
import TaggedRiscv.Uncore.L2Data
import TaggedRiscv.Nasti.Demux
import TaggedRiscv.Board.DpiRam
import TaggedRiscv.Board.Elf
import TaggedRiscv.Core.Csr
import TaggedRiscv.L1.WritebackRows
import TaggedRiscv.Nasti.LiteNasti
import TaggedRiscv.Core.DecodeLogic
import TaggedRiscv.Core.MulDivResult
import TaggedRiscv.L1.ReplayHits
import TaggedRiscv.Fetch.Fresh
import TaggedRiscv.Nasti.Buf
import TaggedRiscv.Fetch.RAS
import TaggedRiscv.Vm.PseudoLRU
