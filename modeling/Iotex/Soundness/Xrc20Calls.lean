import Iotex.Model.Xrc20Contract
import Iotex.Soundness.StaticCalls

/-! # The token calls agree with the generic encoder

The hand-written calls of a token contract against the call data that the generic encoder makes from
the contract's functions, for every address and amount.
-/

namespace Iotex

open Spec

/-- The three functions of a token are in the contract, each name once. -/
structure HasTokenFunctions (contract : Contract) : Prop where
  totalSupply : ∃ function, contract.functions.filter (fun f => f.name == ascii "totalSupply") = [function] ∧
    function.inputs = []
  balanceOf : ∃ function owner, contract.functions.filter (fun f => f.name == ascii "balanceOf") = [function] ∧
    function.inputs = [owner] ∧ owner.name = ascii "_owner" ∧ owner.type = .address
  transfer : ∃ function recipient value,
    contract.functions.filter (fun f => f.name == ascii "transfer") = [function] ∧
    function.inputs = [recipient, value] ∧ recipient.name = ascii "_to" ∧ recipient.type = .address ∧
    value.name = ascii "_value" ∧ value.type = .uint ∧ value.sizeBytes = 32

/-- The hashes of the three signatures start with the fixed selectors. -/
structure HasTokenSelectors (keccak_256 : Keccak) : Prop where
  totalSupply : selector keccak_256 (ascii "totalSupply()") = [0x18, 0x16, 0x0d, 0xdd]
  balanceOf : selector keccak_256 (ascii "balanceOf(address)") = [0x70, 0xa0, 0x82, 0x31]
  transfer : selector keccak_256 (ascii "transfer(address,uint256)") = [0xa9, 0x05, 0x9c, 0xbb]

/-- A hand-written call writes that many bytes to every array with room for them and no others, and
the generic encoder succeeds with their hexadecimal text. -/
def CallsAgree (size : ℕ) (handWritten : Cells → Exec Cells) (generic : Exec (ResultCode × Cells)) : Prop :=
  ∃ bytes, bytes.length = size ∧
    (∀ data, size ≤ data.length → handWritten data = .ok (cells bytes ++ data.drop size)) ∧
    generic = .ok (.success, cells (hex bytes))

/-! ## The hand-written calls -/

/-- The word of an address. -/
private def addressWord (address : Vector UInt8 20) : Bytes := List.replicate 12 0 ++ address.toList

private theorem addressWord_length (address : Vector UInt8 20) : (addressWord address).length = 32 := by
  rw [addressWord, List.length_append, List.length_replicate, Vector.length_toList]

private theorem generateBytesForAddress_word (address : Vector UInt8 20) (out : Cells) :
    Contract.generateBytesForAddress (cells address.toList) out = .ok (32, cells (addressWord address)) := by
  have size : address.toList.length = 20 := Vector.length_toList
  apply generateBytesForAddress_eq out
  rw [firstBytes?_cells size.ge, List.take_of_length_le size.le]

private theorem generateBytesForUint_word (value : UInt64) (out : Cells) :
    Contract.generateBytesForUint (cells (leBytes 8 value.toNat)) 8 out = .ok (32, cells (beBytes 32 value.toNat)) := by
  have bound := value.toNat_lt
  rw [generateBytesForUint_leBytes 8 value.toNat out (by decide) (le_refl 8), Nat.mod_eq_of_lt]
  simpa using bound

/-- A selector stored at the start. -/
private theorem storeAt_selector {selector : Bytes} {data : Cells} (size : selector.length = 4)
    (room : 4 ≤ data.length) :
    storeAt data 0 (cells selector) = .ok (cells selector ++ data.drop 4) := by
  have stored := storeAt_append [] data (by rw [cells_length, size]; exact room)
  rwa [cells_length, size] at stored

/-- A word stored behind what was written. -/
private theorem storeAt_word {front : Bytes} {rest : Cells} {word : Bytes} {offset : ℕ} (behind : front.length = offset)
    (size : word.length = 32) (room : 32 ≤ rest.length) :
    storeAt (cells front ++ rest) offset (cells word) = .ok (cells (front ++ word) ++ rest.drop 32) := by
  have stored := storeAt_append (cells front) rest (by rw [cells_length, size]; exact room)
  rwa [cells_length, behind, cells_length, size, ← cells_append] at stored

theorem totalSupply_writes {data : Cells} (room : 4 ≤ data.length) :
    Xrc20Contract.generateCallDataForTotalSupply data = .ok (cells [0x18, 0x16, 0x0d, 0xdd] ++ data.drop 4) :=
  storeAt_selector rfl room

theorem balanceOf_writes (address : Vector UInt8 20) {data : Cells} (room : 36 ≤ data.length) :
    Xrc20Contract.generateCallDataForBalanceOf address data =
      .ok (cells ([0x70, 0xa0, 0x82, 0x31] ++ addressWord address) ++ data.drop 36) := by
  have stored := @storeAt_word [0x70, 0xa0, 0x82, 0x31] (data.drop 4) _ 4 rfl (addressWord_length address)
    (by rw [List.length_drop]; omega)
  rw [List.drop_drop] at stored
  rw [Xrc20Contract.generateCallDataForBalanceOf, storeAt_selector rfl (by omega), ok_bind,
    generateBytesForAddress_word, ok_bind]
  exact stored

theorem transfer_writes (recipient : Vector UInt8 20) (value : UInt64) {data : Cells} (room : 68 ≤ data.length) :
    Xrc20Contract.generateCallDataForTransfer recipient value data =
      .ok (cells ([0xa9, 0x05, 0x9c, 0xbb] ++ addressWord recipient ++ beBytes 32 value.toNat) ++ data.drop 68) := by
  have word := addressWord_length recipient
  have first := @storeAt_word [0xa9, 0x05, 0x9c, 0xbb] (data.drop 4) _ 4 rfl word (by rw [List.length_drop]; omega)
  have second := @storeAt_word ([0xa9, 0x05, 0x9c, 0xbb] ++ addressWord recipient) (data.drop 36) _ 36
    (by rw [List.length_append, word]; rfl) (beBytes_length 32 value.toNat) (by rw [List.length_drop]; omega)
  rw [List.drop_drop] at first second
  rw [Xrc20Contract.generateCallDataForTransfer, storeAt_selector rfl (by omega), ok_bind,
    generateBytesForAddress_word, ok_bind]
  simp only [first, ok_bind, generateBytesForUint_word]
  exact second

/-! ## The generic encoder -/

/-- Elementary values whose words an `int` counts. -/
private theorem generic_eq {keccak_256 : Keccak} {contract : Contract} {functionName signature : Bytes}
    {function : FunctionAbi} {params : ParameterValuesDictionary} {scalars : List Scalar} (out : Cells)
    (only : contract.functions.filter (fun f => f.name == functionName) = [function])
    (typed : valuesOf? params function.inputs = some (scalars.map .scalar))
    (printed : function.getSignature = .ok signature)
    (counted : 4 + (words (scalars.map Scalar.sent)).length < 2 ^ 31) :
    contract.generateCallData keccak_256 functionName params out =
      .ok (.success, cells (hex (selector keccak_256 signature ++ words (scalars.map Scalar.sent)))) := by
  have short : ∀ value ∈ scalars.map Value.scalar, value.Short := by
    intro value member
    obtain ⟨scalar, -, rfl⟩ := List.mem_map.mp member
    trivial
  have static : ∀ value ∈ scalars.map Value.scalar, value.part.isByOffset = false := by
    intro value member
    obtain ⟨scalar, -, rfl⟩ := List.mem_map.mp member
    rfl
  have each : (scalars.map Value.scalar).flatMap Value.scalars = scalars := by
    rw [List.flatMap_map]
    exact List.flatMap_singleton' scalars
  have encodes := generateCallData_values keccak_256 out only typed short
  rw [sentArguments_static static, each, if_pos counted] at encodes
  obtain ⟨other, same, encodes⟩ := encodes
  obtain rfl : signature = other := Except.ok.inj (printed.symm.trans same)
  exact encodes

private theorem name_of_only {contract : Contract} {functionName : Bytes} {function : FunctionAbi}
    (only : contract.functions.filter (fun f => f.name == functionName) = [function]) :
    function.name = functionName := by
  have member : function ∈ contract.functions.filter (fun f => f.name == functionName) := by
    rw [only]
    exact List.mem_singleton_self function
  simpa using (List.mem_filter.mp member).2

/-- The value of an address parameter. -/
private theorem valueOf?_address {input : InputOutputAbi} (type : input.type = .address) (pointer : UInt64)
    (address : Vector UInt8 20) :
    valueOf? input (makeParamAddress pointer address) = some (.scalar (.address address.toList)) := by
  have size : address.toList.length = 20 := Vector.length_toList
  rw [valueOf?.eq_def, type]
  simp only [scalarOf?, makeParamAddress, firstBytes?_cells size.ge, Option.map_some]
  rw [List.take_of_length_le size.le]

/-- The value of an amount at the type `uint256`. -/
private theorem valueOf?_uint256 {input : InputOutputAbi} (type : input.type = .uint) (size : input.sizeBytes = 32)
    (value : UInt64) : valueOf? input (makeParamUint value) = some (.scalar (.uint value.toNat)) := by
  have bound := value.toNat_lt
  have clamp : Int32.toNatClampNeg 8 = 8 := rfl
  have whole : leNat ((leBytes 8 value.toNat).take 8) = value.toNat := by
    rw [leBytes_take 8 8 _ (le_refl 8), leNat_leBytes]
    exact Nat.mod_eq_of_lt (by simpa using bound)
  have fits : value.toNat < 256 ^ integerWidth 32 := bound.trans (by decide)
  rw [valueOf?.eq_def, type]
  simp only [scalarOf?, makeParamUint, ValueUnion.integer, size, clamp, whole, leBytes_length, le_refl, fits, and_true]
  rfl

section

variable {keccak_256 : Keccak} {contract : Contract} (functions : HasTokenFunctions contract)
  (selectors : HasTokenSelectors keccak_256)
include functions selectors

theorem totalSupply_agrees (params : ParameterValuesDictionary) (out : Cells) :
    CallsAgree 4 Xrc20Contract.generateCallDataForTotalSupply
      (contract.generateCallData keccak_256 (ascii "totalSupply") params out) := by
  obtain ⟨function, only, inputs⟩ := functions.totalSupply
  have typed : valuesOf? params function.inputs = some (([] : List Scalar).map .scalar) := by
    rw [inputs]
    rfl
  have printed : function.getSignature = .ok (ascii "totalSupply()") := by
    rw [FunctionAbi.getSignature, inputs, name_of_only only]
    rfl
  refine ⟨_, rfl, fun data room => totalSupply_writes room, ?_⟩
  rw [generic_eq out only typed printed (by decide), selectors.totalSupply]
  rfl

theorem balanceOf_agrees {params : ParameterValuesDictionary} {pointer : UInt64} {address : Vector UInt8 20}
    (out : Cells) (owner : params.getParameter? (ascii "_owner") = some (makeParamAddress pointer address)) :
    CallsAgree 36 (Xrc20Contract.generateCallDataForBalanceOf address)
      (contract.generateCallData keccak_256 (ascii "balanceOf") params out) := by
  obtain ⟨function, input, only, inputs, name, type⟩ := functions.balanceOf
  have typed : valuesOf? params function.inputs = some ([Scalar.address address.toList].map .scalar) := by
    rw [inputs, valuesOf?, List.mapM_cons, name, owner, Option.bind_some, valueOf?_address type pointer]
    rfl
  have printed : function.getSignature = .ok (ascii "balanceOf(address)") := by
    rw [FunctionAbi.getSignature, inputs, name_of_only only, signatureOfInputs, signatureOfInput, type]
    rfl
  refine ⟨_, ?_, fun data room => balanceOf_writes address room, ?_⟩
  · rw [List.length_append, addressWord_length]
    rfl
  have word : words ([Scalar.address address.toList].map Scalar.sent) = addressWord address := List.append_nil _
  rw [generic_eq out only typed printed (by rw [word, addressWord_length]; norm_num), selectors.balanceOf, word]

theorem transfer_agrees {params : ParameterValuesDictionary} {pointer : UInt64} {recipient : Vector UInt8 20}
    {value : UInt64} (out : Cells)
    (sentTo : params.getParameter? (ascii "_to") = some (makeParamAddress pointer recipient))
    (amount : params.getParameter? (ascii "_value") = some (makeParamUint value)) :
    CallsAgree 68 (Xrc20Contract.generateCallDataForTransfer recipient value)
      (contract.generateCallData keccak_256 (ascii "transfer") params out) := by
  obtain ⟨function, first, second, only, inputs, name, type, valueName, valueType, size⟩ := functions.transfer
  have typed : valuesOf? params function.inputs =
      some ([Scalar.address recipient.toList, Scalar.uint value.toNat].map .scalar) := by
    rw [inputs, valuesOf?, List.mapM_cons, name, sentTo, Option.bind_some, valueOf?_address type pointer, List.mapM_cons,
      valueName, amount, Option.bind_some, valueOf?_uint256 valueType size]
    rfl
  have printed : function.getSignature = .ok (ascii "transfer(address,uint256)") := by
    rw [FunctionAbi.getSignature, inputs, name_of_only only, signatureOfInputs, signatureOfInputs, signatureOfInput,
      signatureOfInput, type, valueType, size]
    · rfl
    · simp
  refine ⟨_, ?_, fun data room => transfer_writes recipient value room, ?_⟩
  · rw [List.length_append, List.length_append, addressWord_length, beBytes_length]
    rfl
  have sent : words ([Scalar.address recipient.toList, Scalar.uint value.toNat].map Scalar.sent) =
      addressWord recipient ++ beBytes 32 value.toNat := by
    simp only [words, List.map_cons, List.map_nil, List.flatten_cons, List.flatten_nil, List.append_nil]
    rfl
  have counted : 4 + (words ([Scalar.address recipient.toList, Scalar.uint value.toNat].map Scalar.sent)).length <
      2 ^ 31 := by
    rw [sent, List.length_append, addressWord_length, beBytes_length]
    norm_num
  rw [generic_eq out only typed printed counted, selectors.transfer, sent, List.append_assoc]

/-- Each hand-written call writes the bytes whose text the generic encoder makes of the same values. -/
theorem tokenCalls_agree {params ownerParams transferParams : ParameterValuesDictionary}
    {ownerPointer recipientPointer : UInt64} {address recipient : Vector UInt8 20} {value : UInt64}
    (owner : ownerParams.getParameter? (ascii "_owner") = some (makeParamAddress ownerPointer address))
    (sentTo : transferParams.getParameter? (ascii "_to") = some (makeParamAddress recipientPointer recipient))
    (amount : transferParams.getParameter? (ascii "_value") = some (makeParamUint value)) (out : Cells) :
    CallsAgree 4 Xrc20Contract.generateCallDataForTotalSupply
        (contract.generateCallData keccak_256 (ascii "totalSupply") params out) ∧
      CallsAgree 36 (Xrc20Contract.generateCallDataForBalanceOf address)
        (contract.generateCallData keccak_256 (ascii "balanceOf") ownerParams out) ∧
      CallsAgree 68 (Xrc20Contract.generateCallDataForTransfer recipient value)
        (contract.generateCallData keccak_256 (ascii "transfer") transferParams out) := by
  refine ⟨?_, ?_, ?_⟩
  · exact totalSupply_agrees functions selectors params out
  · exact balanceOf_agrees functions selectors out owner
  · exact transfer_agrees functions selectors out sentTo amount

end

/-! ## A token -/

/-- The hashes of the three signatures, and a stand-in for all others. -/
def tokenHash : Keccak := fun data =>
  if data = ascii "totalSupply()" then
    #v[0x18, 0x16, 0x0d, 0xdd, 0x7f, 0x15, 0xc7, 0x25, 0x28, 0xc2, 0xf9, 0x4f, 0xd8, 0xdf, 0xe3, 0xc8,
      0xd5, 0xaa, 0x26, 0xe2, 0xc5, 0x0c, 0x7d, 0x81, 0xf4, 0xbc, 0x7b, 0xee, 0x8d, 0x4b, 0x79, 0x32]
  else if data = ascii "balanceOf(address)" then
    #v[0x70, 0xa0, 0x82, 0x31, 0xb9, 0x8e, 0xf4, 0xca, 0x26, 0x8c, 0x9c, 0xc3, 0xf6, 0xb4, 0x59, 0x0e,
      0x4b, 0xfe, 0xc2, 0x82, 0x80, 0xdb, 0x06, 0xbb, 0x5d, 0x45, 0xe6, 0x89, 0xf2, 0xa3, 0x60, 0xbe]
  else if data = ascii "transfer(address,uint256)" then
    #v[0xa9, 0x05, 0x9c, 0xbb, 0x2a, 0xb0, 0x9e, 0xb2, 0x19, 0x58, 0x3f, 0x4a, 0x59, 0xa5, 0xd0, 0x62,
      0x3a, 0xde, 0x34, 0x6d, 0x96, 0x2b, 0xcd, 0x4e, 0x46, 0xb1, 0x1d, 0xa0, 0x47, 0xc9, 0x04, 0x9b]
  else paddedHash data

private def addressInput (name : Bytes) : InputOutputAbi where
  name := name
  type := .address
  sizeBytes := 0
  arrayType := .unknown
  arraySize := 0

private def amountInput : InputOutputAbi where
  name := ascii "_value"
  type := .uint
  sizeBytes := 32
  arrayType := .unknown
  arraySize := 0

private def tokenFunction (name : Bytes) (inputs : List InputOutputAbi) : FunctionAbi where
  constant := false
  inputs := inputs
  name := name
  payable := false

def tokenContract : Contract where
  functions := [tokenFunction (ascii "totalSupply") [],
    tokenFunction (ascii "balanceOf") [addressInput (ascii "_owner")],
    tokenFunction (ascii "transfer") [addressInput (ascii "_to"), amountInput]]

/-- An amount of a token sent to an address, and the calls that ask for its balance and the supply. -/
theorem tokenContract_agrees :
    CallsAgree 4 Xrc20Contract.generateCallDataForTotalSupply
        (tokenContract.generateCallData tokenHash (ascii "totalSupply") .empty []) ∧
      CallsAgree 36 (Xrc20Contract.generateCallDataForBalanceOf (Vector.replicate 20 0xfd))
        (tokenContract.generateCallData tokenHash (ascii "balanceOf")
          (ParameterValuesDictionary.empty.addParameter (ascii "_owner")
            (makeParamAddress 0x1000 (Vector.replicate 20 0xfd))) []) ∧
      CallsAgree 68 (Xrc20Contract.generateCallDataForTransfer (Vector.replicate 20 0xfd) 1000)
        (tokenContract.generateCallData tokenHash (ascii "transfer")
          ((ParameterValuesDictionary.empty.addParameter (ascii "_to")
            (makeParamAddress 0x1000 (Vector.replicate 20 0xfd))).addParameter (ascii "_value") (makeParamUint 1000)) []) := by
  apply tokenCalls_agree
  · exact ⟨⟨_, rfl, rfl⟩, ⟨_, _, rfl, rfl, rfl, rfl⟩, ⟨_, _, _, rfl, rfl, rfl, rfl, rfl, rfl, rfl⟩⟩
  · exact ⟨by decide, by decide, by decide⟩
  · rfl
  · rfl
  · rfl

end Iotex
