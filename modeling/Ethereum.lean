import Ethereum.Chain.Block
import Ethereum.Chain.Blockchain
import Ethereum.Chain.Commitment
import Ethereum.Chain.Tampering
import Ethereum.Contracts.Abi
import Ethereum.Contracts.Contract
import Ethereum.Contracts.Counter
import Ethereum.Contracts.CounterRuns
import Ethereum.Contracts.Deployment
import Ethereum.Contracts.ExactGas
import Ethereum.Contracts.Ledger
import Ethereum.Contracts.Token
import Ethereum.Contracts.TokenClients
import Ethereum.Contracts.TokenSpec
import Ethereum.Contracts.TokenSupply
import Ethereum.Core.Agreement
import Ethereum.Core.Apply
import Ethereum.Core.Audit
import Ethereum.Core.Authorization
import Ethereum.Core.Completed
import Ethereum.Core.Conservation
import Ethereum.Core.Exact
import Ethereum.Core.Execution
import Ethereum.Core.Failure
import Ethereum.Core.Immutability
import Ethereum.Core.Independence
import Ethereum.Core.Keys
import Ethereum.Core.Locality
import Ethereum.Core.Nesting
import Ethereum.Core.Payment
import Ethereum.Core.PlainTransfer
import Ethereum.Core.Preimages
import Ethereum.Core.Refund
import Ethereum.Core.Replay
import Ethereum.Core.Signing
import Ethereum.Core.StateTransition
import Ethereum.Core.Storage
import Ethereum.Core.TopFrame
import Ethereum.Core.Transaction
import Ethereum.Core.Transition
import Ethereum.Core.TxValidator
import Ethereum.Core.WordLedger
import Ethereum.Core.WordTransition
import Ethereum.Core.Words
import Ethereum.Encoding.Canonical
import Ethereum.Encoding.Grammar
import Ethereum.Encoding.Injective
import Ethereum.Encoding.Rlp
import Ethereum.Encoding.RoundTrip
import Ethereum.Encoding.Totality
import Ethereum.Evm.Agreement
import Ethereum.Evm.Atomicity
import Ethereum.Evm.Authority
import Ethereum.Evm.Boundaries
import Ethereum.Evm.Bounded
import Ethereum.Evm.Callee
import Ethereum.Evm.Costs
import Ethereum.Evm.Creation
import Ethereum.Evm.Divergence
import Ethereum.Evm.Effects
import Ethereum.Evm.Footprint
import Ethereum.Evm.Gas
import Ethereum.Evm.Hoare
import Ethereum.Evm.Keys
import Ethereum.Evm.Leaf
import Ethereum.Evm.Memory
import Ethereum.Evm.MemoryModel
import Ethereum.Evm.Metering
import Ethereum.Evm.Nesting
import Ethereum.Evm.Opcodes
import Ethereum.Evm.Range
import Ethereum.Evm.Reach
import Ethereum.Evm.ReturnData
import Ethereum.Evm.Run
import Ethereum.Evm.Script
import Ethereum.Evm.Settle
import Ethereum.Evm.Spending
import Ethereum.Evm.StackDiscipline
import Ethereum.Evm.StackEffect
import Ethereum.Evm.Step
import Ethereum.Evm.Storage
import Ethereum.Evm.Targets
import Ethereum.Evm.Termination
import Ethereum.Evm.Threshold
import Ethereum.Evm.Vm
import Ethereum.Evm.Windows
import Ethereum.Evm.WordAccounts
import Ethereum.Evm.WordArithmetic
import Ethereum.Evm.WordFrames
import Ethereum.Evm.WordMachine
import Ethereum.Evm.WordRefinement
import Ethereum.Evm.Words
import Ethereum.Lib.Allocation
import Ethereum.Lib.BigEndian
import Ethereum.Lib.Brackets
import Ethereum.Lib.CopyStore
import Ethereum.Lib.Dict
import Ethereum.Lib.HashLinked
import Ethereum.Lib.Journal
import Ethereum.Lib.Machine
import Ethereum.Lib.Padded
import Ethereum.Lib.Posting
import Ethereum.Lib.Relational
import Ethereum.Lib.Sequencing
import Ethereum.Lib.Stateful
import Ethereum.Python
import Ethereum.Scenarios.Counter
import Ethereum.Scenarios.EthTransfer
import Ethereum.Scenarios.Program
import Ethereum.Scenarios.Token
import Ethereum.State.Agreement
import Ethereum.State.Genesis
import Ethereum.State.Keys
import Ethereum.State.Moves
import Ethereum.State.StateRoot
import Ethereum.State.WorldState
