import LocalLLM.Proofs.Stores
import LocalLLM.Proofs.Outcomes
import LocalLLM.Proofs.Stop
import LocalLLM.Proofs.Cache
import LocalLLM.Proofs.History
import LocalLLM.Proofs.Scheduler
import LocalLLM.Proofs.Llama
import LocalLLM.Proofs.MlxRuntime
import LocalLLM.Proofs.Rpc
import LocalLLM.Proofs.HttpCompletion
import LocalLLM.Proofs.Manifest
import LocalLLM.Proofs.Continuation
import LocalLLM.Proofs.Preparation
import LocalLLM.Proofs.GenerationOptions
import LocalLLM.Proofs.Ipc
import LocalLLM.Proofs.Redaction
import LocalLLM.Proofs.Paths
import LocalLLM.Proofs.Trimming
import LocalLLM.Proofs.Fallback
import LocalLLM.Proofs.ToolTurn
import LocalLLM.Proofs.Markers
import LocalLLM.Proofs.Inspection
import LocalLLM.Proofs.Normalisation
import LocalLLM.Proofs.Template
import LocalLLM.Proofs.Framing
import LocalLLM.Proofs.Connection
import LocalLLM.Proofs.Publication
import LocalLLM.Runtimes.MemoryEstimate
import LocalLLM.Proofs.Devices
import LocalLLM.Proofs.Lookups
import LocalLLM.Proofs.Chunks
import LocalLLM.Proofs.Transparency
import LocalLLM.Proofs.Serial
import LocalLLM.Proofs.Admission
import LocalLLM.Proofs.Registry
import LocalLLM.Proofs.Download
import LocalLLM.Proofs.Pinned
import LocalLLM.Proofs.Calls
import LocalLLM.Proofs.KeepAlive
import LocalLLM.Proofs.HttpRequest
import LocalLLM.Proofs.HttpDialogue
import LocalLLM.Proofs.MlxGeneration
