import WosKernel.SerialNumber
import WosKernel.WkiChannel
import WosKernel.WkiReliable
import WosKernel.ByteCodec
import WosKernel.XfsLog
import WosKernel.BlkRing
import WosKernel.BufferCache
import WosKernel.TcpSend
import WosKernel.XfsAlloc
import WosKernel.XfsDirLeaf
import WosKernel.Lib.ChunkedList
import WosKernel.XfsBmapExtents
import WosKernel.XfsBmbt
import WosKernel.Lib.OnesComplement
import WosKernel.NetChecksum
import WosKernel.UserCopy
import WosKernel.TcpInput
import WosKernel.WkiReceive
import WosKernel.WkiSend
import WosKernel.Lib.DefaultMap
import WosKernel.Lib.RadixDigits
import WosKernel.RadixTree
import WosKernel.Lib.Gf2Remainder
import WosKernel.Crc32c
import WosKernel.Lib.ArrayHeap
import WosKernel.RunHeap
import WosKernel.WkiRouting
import WosKernel.XfsDirShortform
import WosKernel.Lib.WeightedWalk
import WosKernel.WkiSpf
import WosKernel.Lib.BitFields
import WosKernel.XfsFormat
import WosKernel.Lib.FirstHit
import WosKernel.RadixFind
import WosKernel.Lib.IntervalMerge
import WosKernel.BufferEpochs
import WosKernel.BufferCoverage
import WosKernel.Lib.Buddy
import WosKernel.PageAlloc
import WosKernel.PageAllocLayout
import WosKernel.PageAllocOps
import WosKernel.PageAllocFree
import WosKernel.PageAllocInit
import WosKernel.PageAllocRun
import WosKernel.PageAllocRefine
import WosKernel.PageAllocCache
import WosKernel.PageAllocRange
import WosKernel.PageAllocBlocks
import WosKernel.Lib.StepRun
import WosKernel.PageAllocSystem
