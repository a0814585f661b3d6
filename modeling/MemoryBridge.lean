import MemoryBridge.Migration
import MemoryBridge.HistoryText
import MemoryBridge.Embeddings
import MemoryBridge.LoggedRead
import MemoryBridge.Atomicity
import MemoryBridge.CreateOnly
import MemoryBridge.Timestamps
import MemoryBridge.Caps
import MemoryBridge.ToolListing
import MemoryBridge.RequestTimeout
import MemoryBridge.StdoutFraming
import MemoryBridge.Recovery
import MemoryBridge.PrefixList
import MemoryBridge.Search
import MemoryBridge.SearchAudit
import MemoryBridge.HttpGate
import MemoryBridge.DebugTrace
import MemoryBridge.TamperReport
import MemoryBridge.GatedSession
import MemoryBridge.ReadOrder
import MemoryBridge.ModelLoading
import MemoryBridge.Resumption
import MemoryBridge.HttpStartup
import MemoryBridge.StdioDialogue
import MemoryBridge.Inspection
