import Mrml.Agent.Calls
import Mrml.Arch.AddressSpace
import Mrml.Arch.ApStartup
import Mrml.Arch.Exact
import Mrml.Arch.Translation
import Mrml.Boot.Handoff
import Mrml.Boot.Policy
import Mrml.Git.Config
import Mrml.Git.Diff
import Mrml.Git.LineEndings
import Mrml.Git.SignedCommit
import Mrml.Git.Varint
import Mrml.Git.Wildcard
import Mrml.Gpu.ControlBatch
import Mrml.Gpu.Fifo
import Mrml.Gpu.Resource
import Mrml.Gpu.SchemaArithmetic
import Mrml.Json.Lexemes
import Mrml.Kernel.Authority
import Mrml.Kernel.Contiguous
import Mrml.Kernel.Mailbox
import Mrml.Kernel.Policy
import Mrml.Kernel.Quantum
import Mrml.Kernel.Relocation
import Mrml.Kernel.Revocation
import Mrml.Kernel.Rollback
import Mrml.Kernel.RoundRobin
import Mrml.Kernel.Supervisor
import Mrml.Runtime.Channel
import Mrml.Rustc.Rejection
import Mrml.Ssh.Channel
import Mrml.Ssh.Wire
import Mrml.Tensor.Declared
import Mrml.Tensor.Gguf
import Mrml.Tls.Agreement
import Mrml.Tokenizer.Bpe
import Mrml.Vm.FailStop
import Mrml.Vm.HypercallCodec
import Mrml.Zstd.Fse
import Mrml.Zstd.Huffman
