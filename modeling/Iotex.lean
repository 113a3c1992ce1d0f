import Iotex.Lib.Absorption
import Iotex.Lib.Base64
import Iotex.Lib.Bytes
import Iotex.Lib.Collect
import Iotex.Lib.Decimal
import Iotex.Lib.Exchange
import Iotex.Lib.HeadTail
import Iotex.Lib.Hex
import Iotex.Lib.HighBits
import Iotex.Lib.Json
import Iotex.Lib.JsonRules
import Iotex.Lib.Keccak
import Iotex.Lib.LinearRegister
import Iotex.Lib.Regroup
import Iotex.Lib.Runs
import Iotex.Lib.Steps
import Iotex.Lib.Wire
import Iotex.Model.Abi
import Iotex.Model.Account
import Iotex.Model.Contract
import Iotex.Model.Host
import Iotex.Model.Http
import Iotex.Model.Nano33Http
import Iotex.Model.Random
import Iotex.Model.Sha3
import Iotex.Model.Storage
import Iotex.Model.TypeMemory
import Iotex.Proofs.ActionCores
import Iotex.Proofs.ActionResponses
import Iotex.Proofs.ArraySuffix
import Iotex.Proofs.CallData
import Iotex.Proofs.Dictionaries
import Iotex.Proofs.Extractions
import Iotex.Proofs.Calls
import Iotex.Proofs.EncoderRuns
import Iotex.Proofs.ValueRuns
import Iotex.Proofs.KeccakEvaluation
import Iotex.Proofs.KeccakRounds
import Iotex.Proofs.RequestBodies
import Iotex.Proofs.ReturnedSizes
import Iotex.Proofs.SignedCores
import Iotex.Proofs.TypeMemory
import Iotex.Soundness.AccountQueries
import Iotex.Soundness.ActionHashes
import Iotex.Soundness.ActionLookups
import Iotex.Soundness.AddressForms
import Iotex.Soundness.ArrayEncodings
import Iotex.Soundness.BitRegrouping
import Iotex.Soundness.ContractParsing
import Iotex.Soundness.DictionaryRuns
import Iotex.Soundness.Digests
import Iotex.Soundness.DynamicCalls
import Iotex.Soundness.EncodingErrors
import Iotex.Soundness.HeaderStreams
import Iotex.Soundness.HexReading
import Iotex.Soundness.HexText
import Iotex.Soundness.Hosts
import Iotex.Soundness.IntegerWords
import Iotex.Soundness.JsonNumbers
import Iotex.Soundness.NamedArguments
import Iotex.Soundness.PostedActions
import Iotex.Soundness.PostedTokens
import Iotex.Soundness.RandomBytes
import Iotex.Soundness.RequestBuffers
import Iotex.Soundness.RequestShapes
import Iotex.Soundness.ResponseArrays
import Iotex.Soundness.ReturnedSizes
import Iotex.Soundness.Sending
import Iotex.Soundness.Signatures
import Iotex.Soundness.SignedBytes
import Iotex.Soundness.SignedMessages
import Iotex.Soundness.StaticCalls
import Iotex.Soundness.StaticWidths
import Iotex.Soundness.StoredKeys
import Iotex.Soundness.TokenSelectors
import Iotex.Soundness.TypeGrammar
import Iotex.Soundness.TypeMemory
import Iotex.Soundness.UniformKeys
import Iotex.Soundness.UrlReading
import Iotex.Soundness.Xrc20Calls
import Iotex.Spec.ReturnedSizes
import Iotex.Soundness.FunctionLookup
