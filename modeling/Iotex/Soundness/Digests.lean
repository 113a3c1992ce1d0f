import Mathlib.Data.Nat.Bitwise
import Iotex.Proofs.KeccakRounds
import Iotex.Soundness.SignedMessages

/-! # The digests of the vendored hash

A context is filled by any number of updates, with pieces of any lengths at any addresses, before it is
closed. Whatever the pieces are, nothing is written outside the buffer, and the digest is the hash of
the bytes in their order. After every update the context stands for what has been absorbed so far.
-/

namespace Iotex

open Keccak Sha3

/-- A piece of a message at its place in memory, of less than half the address space. -/
structure Piece where
  address : ℕ
  bytes : Bytes
  bound : bytes.length < 2 ^ 63

/-- The updates of a context with one piece after the other. -/
def updates (ctx : Sha3Ctx) (pieces : List Piece) : Exec Sha3Ctx :=
  pieces.foldlM (fun ctx piece => sha3Update ctx piece.address piece.bytes) ctx

/-- The sizes of digests that there are contexts for. -/
def digestBits : List ℕ := [224, 256, 384, 512]

/-- The bytes of a block, for the digests that there are contexts for. -/
def blockSizes : List ℕ := [144, 136, 104, 72]

/-- A context stands for what has been absorbed. -/
structure StandsFor (ctx : Sha3Ctx) (blockSize : ℕ) (absorbed : Absorption Lanes UInt8) : Prop where
  blockSize_eq : ctx.blockSize = blockSize
  hash_eq : lanes ctx.hash = absorbed.state
  rest_eq : ctx.rest = absorbed.pending.length
  waiting : ctx.message.val.take ctx.rest = absorbed.pending
  room : absorbed.pending.length < blockSize

/-! ## The buffer -/

theorem store_eq (message : MessageBuffer) {index : ℕ} {bytes : Bytes} (fits : index + bytes.length ≤ 192) :
    ∃ next, message.store index bytes = .ok next ∧
      next.val = message.val.take index ++ bytes ++ message.val.drop (index + bytes.length) := by
  exact ⟨_, dif_pos fits, rfl⟩

theorem setBits_eq (message : MessageBuffer) {index : ℕ} (inside : index < 192) (bits : UInt8) :
    ∃ next, message.setBits index bits = .ok next ∧
      next.val = message.val.set index (message.val[index]?.getD 0 ||| bits) := by
  have length := message.property
  have here : index < message.val.length := by omega
  have byte : (message.val.drop index).take 1 = [message.val[index]] := by
    rw [List.drop_eq_getElem_cons here, List.take_succ_cons, List.take_zero]
  have present : 1 ≤ (message.val.drop index).length := by
    rw [List.length_drop]
    omega
  have room : index + [message.val[index] ||| bits].length ≤ 192 := inside
  obtain ⟨next, stored, next_val⟩ := store_eq message room
  refine ⟨next, ?_, ?_⟩
  · rw [MessageBuffer.setBits, readFirst_of_le present, byte]
    exact stored
  · rw [next_val, List.set_eq_take_append_cons_drop, if_pos here, List.getElem?_eq_getElem here, Option.getD_some]
    simp

theorem unfinished_of_lt {rest : ℕ} (bound : rest < 2 ^ 31) : rest &&& sha3Finalized = 0 := by
  rw [show sha3Finalized = 2 ^ 31 from rfl, Nat.and_two_pow, Nat.testBit_lt_two_pow bound]
  rfl

theorem toList_eq_flatMap (hash : KeccakState) :
    (hash.toList.flatMap fun lane => leBytes 8 lane.toNat) = laneBytes (lanes hash) := by
  have order : ((List.finRange 5).flatMap fun y => (List.finRange 5).map fun x => place x y) = List.finRange 25 := by
    decide
  have lanes_toList : hash.toList = (List.finRange 25).map (hash[·]) := by
    apply List.ext_getElem <;> simp
  rw [lanes_toList, ← order, laneBytes]
  simp only [List.map_flatMap, List.flatMap_assoc, List.map_map, List.flatMap_map]
  rfl

/-- The last block, as it is made in the buffer: zeros, then the suffix, then the last bit. -/
theorem set_set_eq_lastBlock {rate : ℕ} {pending : Bytes} (room : pending.length < rate) (suffix : UInt8) :
    let suffixed := (pending ++ List.replicate (rate - pending.length) 0).set pending.length suffix
    suffixed.set (rate - 1) (suffixed[rate - 1]?.getD 0 ||| 0x80) = lastBlock rate suffix pending := by
  obtain ⟨zeros, zeros_eq⟩ : ∃ zeros, rate - pending.length = zeros + 1 := ⟨rate - pending.length - 1, by omega⟩
  have first : (pending ++ List.replicate (rate - pending.length) 0).set pending.length suffix =
      pending ++ suffix :: List.replicate zeros 0 := by
    rw [zeros_eq, List.set_append_right _ _ le_rfl, Nat.sub_self, List.replicate_succ, List.set_cons_zero]
  have last : rate - 1 = pending.length + zeros := by omega
  simp only [first, last, List.set_append_right _ _ (Nat.le_add_right _ _),
    List.getElem?_append_right (Nat.le_add_right _ _), Nat.add_sub_cancel_left, lastBlock]
  cases zeros with
  | zero =>
    rw [if_pos (by omega)]
    rfl
  | succ zeros =>
    rw [if_neg (by omega), show rate - pending.length - 2 = zeros by omega, List.replicate_succ']
    simp

section

variable {blockSize : ℕ} (offered : blockSize ∈ blockSizes)

include offered

theorem blockSize_bounds : 0 < blockSize ∧ blockSize ≤ 144 := by
  have bounds : ∀ size ∈ blockSizes, 0 < size ∧ size ≤ 144 := by decide
  exact bounds blockSize offered

theorem blockWords_eq : 8 * blockWords blockSize = blockSize := by
  have whole : ∀ size ∈ blockSizes, 8 * blockWords size = size := by decide
  exact whole blockSize offered

/-! ## Blocks -/

/-- The words that are added are those of a block; the words behind it count as zeros. -/
theorem lanes_addWords (hash : KeccakState) {block : Bytes} (length : block.length = blockSize) :
    lanes (addWords hash (blockWords blockSize) block) =
      fun x y => lanes hash x y ^^^ word block (5 * y.val + x.val) := by
  have words := blockWords_eq offered
  funext x y
  rw [lanes, addWords, Fin.getElem_fin, Vector.getElem_ofFn]
  split_ifs with inside
  · rfl
  · have outside : blockWords blockSize ≤ 5 * y.val + x.val := Nat.not_lt.mp inside
    have behind : block.drop (8 * (5 * y.val + x.val)) = [] := List.drop_of_length_le (by omega)
    rw [word, behind]
    exact UInt64.xor_zero.symm

theorem sha3ProcessBlock_eq (hash : KeccakState) {block : Bytes} (long : blockSize ≤ block.length) :
    ∃ next, sha3ProcessBlock hash block blockSize = .ok next ∧
      lanes next = absorbBlock (lanes hash) (block.take blockSize) := by
  have words := blockWords_eq offered
  have length : (block.take blockSize).length = blockSize := by
    rw [List.length_take]
    omega
  refine ⟨sha3Permutation (addWords hash (blockWords blockSize) (block.take blockSize)), ?_, ?_⟩
  · rw [sha3ProcessBlock, words, readFirst_of_le long, ok_bind, pure_eq_ok]
  · rw [lanes_permutation, lanes_addWords offered hash length, absorbBlock]

/-- Whole blocks are taken in at any address, and what is left of the piece is kept. -/
theorem updateBlocks_standsFor {fuel : ℕ} {ctx : Sha3Ctx} {address : ℕ} {msg : Bytes} (enough : msg.length < fuel)
    (size : ctx.blockSize = blockSize) (rest : ctx.rest = msg.length % blockSize) :
    ∃ next, updateBlocks blockSize fuel ctx address msg = .ok next ∧
      StandsFor next blockSize (Absorption.feed absorbBlock blockSize ⟨lanes ctx.hash, []⟩ msg) := by
  obtain ⟨positive, small⟩ := blockSize_bounds offered
  induction fuel generalizing ctx address msg with
  | zero => omega
  | succ fuel ih =>
    rw [updateBlocks]
    by_cases whole : blockSize ≤ msg.length
    · rw [if_pos whole]
      have head_length : (msg.take blockSize).length = blockSize := by rw [List.length_take]; omega
      have left_length : (msg.drop blockSize).length = msg.length - blockSize := List.length_drop
      have left_rest : ctx.rest = (msg.drop blockSize).length % blockSize := by
        rw [rest, left_length, Nat.mod_eq_sub_mod whole]
      have fed : Absorption.feed absorbBlock blockSize ⟨lanes ctx.hash, []⟩ msg =
          Absorption.feed absorbBlock blockSize ⟨absorbBlock (lanes ctx.hash) (msg.take blockSize), []⟩
            (msg.drop blockSize) := by
        conv_lhs => rw [← List.take_append_drop blockSize msg]
        have some : msg.take blockSize ≠ [] := List.ne_nil_of_length_pos (by omega)
        rw [Absorption.feed_append, Absorption.feed_block some (by rw [head_length, List.length_nil, Nat.zero_add]),
          List.nil_append]
      split_ifs with aligned
      · obtain ⟨hash, processed, hash_lanes⟩ := sha3ProcessBlock_eq offered ctx.hash whole
        rw [processed, ok_bind, fed, ← hash_lanes]
        exact @ih { ctx with hash } _ _ (by omega) size left_rest
      · obtain ⟨message, stored, message_val⟩ :=
          store_eq ctx.message (show 0 + (msg.take blockSize).length ≤ 192 by omega)
        have message_take : message.val.take blockSize = msg.take blockSize := by
          rw [message_val, List.take_zero, List.nil_append, List.take_append_of_le_length head_length.ge,
            List.take_of_length_le head_length.le]
        obtain ⟨hash, processed, hash_lanes⟩ :=
          sha3ProcessBlock_eq offered ctx.hash (show blockSize ≤ message.val.length by rw [message.property]; omega)
        rw [stored, ok_bind, processed, ok_bind, fed, ← message_take, ← hash_lanes]
        exact @ih { ctx with hash, message } _ _ (by omega) size left_rest
    · rw [if_neg whole]
      have short := Nat.not_le.mp whole
      rw [Nat.mod_eq_of_lt short] at rest
      rw [Absorption.feed_short (by rwa [List.length_nil, Nat.zero_add]), List.nil_append]
      split_ifs with some
      · obtain ⟨message, stored, message_val⟩ := store_eq ctx.message (show 0 + msg.length ≤ 192 by omega)
        rw [stored, ok_bind]
        refine ⟨{ ctx with message }, rfl, size, rfl, rest, ?_, short⟩
        simp only [message_val, rest, List.take_zero, List.nil_append, List.take_left]
      · have none : msg = [] := List.eq_nil_of_length_eq_zero (not_not.mp some)
        refine ⟨ctx, rfl, size, rfl, rest, ?_, short⟩
        rw [rest, none, List.length_nil, List.take_zero]

/-! ## Pieces -/

/-- After an update the context stands for what has been absorbed, with the piece behind it. -/
theorem sha3Update_standsFor {ctx : Sha3Ctx} {absorbed : Absorption Lanes UInt8}
    (stands : StandsFor ctx blockSize absorbed) (piece : Piece) :
    ∃ next, sha3Update ctx piece.address piece.bytes = .ok next ∧
      StandsFor next blockSize (Absorption.feed absorbBlock blockSize absorbed piece.bytes) := by
  obtain ⟨positive, small⟩ := blockSize_bounds offered
  obtain ⟨size, hash_eq, rest_eq, waiting, room⟩ := stands
  have bound := piece.bound
  generalize piece.bytes = msg at bound ⊢
  obtain ⟨state, pending⟩ := absorbed
  simp only at hash_eq rest_eq waiting room
  have unfinished := unfinished_of_lt (show ctx.rest < 2 ^ 31 by omega)
  have no_wrap : (ctx.rest + msg.length) % 2 ^ 64 = ctx.rest + msg.length := Nat.mod_eq_of_lt (by omega)
  have counted : (ctx.rest + msg.length) % blockSize % 2 ^ 32 = (ctx.rest + msg.length) % blockSize :=
    Nat.mod_eq_of_lt (by have := Nat.mod_lt (ctx.rest + msg.length) positive; omega)
  simp only [sha3Update, unfinished, ne_eq, not_true_eq_false, if_false, no_wrap, remSizeT, size, positive.ne', counted,
    ok_bind]
  by_cases filling : ctx.rest = 0
  · rw [if_neg (not_not.mpr filling)]
    have empty : pending = [] := List.eq_nil_of_length_eq_zero (by omega)
    rw [empty, ← hash_eq]
    refine updateBlocks_standsFor offered (Nat.lt_succ_self msg.length) rfl ?_
    simp only [filling, Nat.zero_add]
  rw [if_pos filling]
  have left_eq : toSizeT ((blockSize : ℤ) - ctx.rest) = blockSize - ctx.rest := by
    rw [← Int.ofNat_sub (by omega)]
    exact toSizeT_of_lt (by omega)
  rw [left_eq]
  have head_length :
      (msg.take (min msg.length (blockSize - ctx.rest))).length = min msg.length (blockSize - ctx.rest) := by
    rw [List.length_take]
    omega
  obtain ⟨message, stored, message_val⟩ := store_eq ctx.message
    (show ctx.rest + (msg.take (min msg.length (blockSize - ctx.rest))).length ≤ 192 by omega)
  have message_take : message.val.take (ctx.rest + min msg.length (blockSize - ctx.rest)) =
      pending ++ msg.take (min msg.length (blockSize - ctx.rest)) := by
    rw [message_val, waiting]
    refine List.take_left' ?_
    rw [List.length_append, head_length, rest_eq]
  rw [stored, ok_bind]
  by_cases short : msg.length < blockSize - ctx.rest
  · rw [if_pos short]
    have less : min msg.length (blockSize - ctx.rest) = msg.length := by omega
    have rest : (ctx.rest + msg.length) % blockSize = ctx.rest + msg.length := Nat.mod_eq_of_lt (by omega)
    rw [less, List.take_length] at message_take
    rw [Absorption.feed_short (by omega), rest]
    refine ⟨_, rfl, rfl, hash_eq, ?_, message_take, ?_⟩
    · rw [List.length_append, rest_eq]
    · rw [List.length_append]
      omega
  · rw [if_neg short]
    have less : min msg.length (blockSize - ctx.rest) = blockSize - ctx.rest := by omega
    rw [less, Nat.add_sub_cancel' (by omega)] at message_take
    rw [less] at head_length
    obtain ⟨hash, processed, hash_lanes⟩ :=
      sha3ProcessBlock_eq offered ctx.hash (show blockSize ≤ message.val.length by rw [message.property]; omega)
    have fed : Absorption.feed absorbBlock blockSize ⟨state, pending⟩ msg =
        Absorption.feed absorbBlock blockSize
          ⟨absorbBlock state (pending ++ msg.take (blockSize - ctx.rest)), []⟩ (msg.drop (blockSize - ctx.rest)) := by
      conv_lhs => rw [← List.take_append_drop (blockSize - ctx.rest) msg]
      have some : msg.take (blockSize - ctx.rest) ≠ [] := List.ne_nil_of_length_pos (by omega)
      rw [Absorption.feed_append, Absorption.feed_block some (by omega)]
    rw [processed, ok_bind, fed, ← message_take, ← hash_eq, ← hash_lanes]
    have enough : (msg.drop (blockSize - ctx.rest)).length < msg.length + 1 := by
      rw [List.length_drop]
      omega
    refine updateBlocks_standsFor offered enough rfl ?_
    have split : ctx.rest + msg.length = (msg.length - (blockSize - ctx.rest)) + blockSize := by omega
    rw [List.length_drop, split, Nat.add_mod_right]

/-- What any updates leave in a context. -/
theorem updates_standsFor {ctx : Sha3Ctx} {absorbed : Absorption Lanes UInt8}
    (stands : StandsFor ctx blockSize absorbed) (pieces : List Piece) :
    ∃ next, updates ctx pieces = .ok next ∧
      StandsFor next blockSize (Absorption.feed absorbBlock blockSize absorbed (pieces.flatMap Piece.bytes)) := by
  induction pieces generalizing ctx absorbed with
  | nil => exact ⟨ctx, rfl, stands⟩
  | cons piece rest ih =>
    obtain ⟨next, updated, stands⟩ := sha3Update_standsFor offered stands piece
    obtain ⟨last, run, stands⟩ := ih stands
    refine ⟨last, ?_, ?_⟩
    · rw [updates, List.foldlM_cons, updated, ok_bind]
      exact run
    · rwa [List.flatMap_cons, Absorption.feed_append]

/-! ## The digest -/

/-- Closing a context pads what is waiting, takes the last block in and clears the context. -/
theorem final_standsFor {ctx : Sha3Ctx} {absorbed : Absorption Lanes UInt8} (stands : StandsFor ctx blockSize absorbed)
    (suffix : UInt8) :
    final suffix ctx = .ok ((laneBytes (absorbBlock absorbed.state (lastBlock blockSize suffix absorbed.pending))).take
      (100 - blockSize / 2), Sha3Ctx.cleared) := by
  obtain ⟨positive, small⟩ := blockSize_bounds offered
  obtain ⟨size, hash_eq, rest_eq, waiting, room⟩ := stands
  have unfinished := unfinished_of_lt (show ctx.rest < 2 ^ 31 by omega)
  have zeros_eq : toSizeT ((blockSize : ℤ) - ctx.rest) = blockSize - ctx.rest := by
    rw [← Int.ofNat_sub (by omega)]
    exact toSizeT_of_lt (by omega)
  have last_eq : toSizeT ((blockSize : ℤ) - 1) = blockSize - 1 := by
    rw [← Nat.cast_one, ← Int.ofNat_sub positive]
    exact toSizeT_of_lt (by omega)
  have digest_eq : toSizeT (100 - (blockSize / 2 : ℕ)) = 100 - blockSize / 2 := by
    rw [← Nat.cast_ofNat, ← Int.ofNat_sub (by omega)]
    exact toSizeT_of_lt (by omega)
  obtain ⟨zeroed, stored, zeroed_val⟩ := store_eq ctx.message
    (show ctx.rest + (List.replicate (blockSize - ctx.rest) (0 : UInt8)).length ≤ 192 by
      rw [List.length_replicate]
      omega)
  obtain ⟨suffixed, suffix_set, suffixed_val⟩ := setBits_eq zeroed (show ctx.rest < 192 by omega) suffix
  obtain ⟨closed, bit_set, closed_val⟩ := setBits_eq suffixed (show blockSize - 1 < 192 by omega) 0x80
  have zeroed_take : zeroed.val.take blockSize =
      absorbed.pending ++ List.replicate (blockSize - absorbed.pending.length) 0 := by
    rw [zeroed_val, waiting, rest_eq]
    refine List.take_left' ?_
    rw [List.length_append, List.length_replicate]
    omega
  have suffixed_take : suffixed.val.take blockSize =
      (absorbed.pending ++ List.replicate (blockSize - absorbed.pending.length) 0).set absorbed.pending.length
        suffix := by
    have zero : zeroed.val[ctx.rest]?.getD 0 = 0 := by
      rw [← List.getElem?_take_of_lt (show ctx.rest < blockSize by omega), zeroed_take, rest_eq,
        List.getElem?_append_right le_rfl, List.getElem?_replicate]
      split_ifs <;> rfl
    rw [suffixed_val, List.take_set, zeroed_take, zero, UInt8.zero_or, rest_eq]
  have closed_take : closed.val.take blockSize = lastBlock blockSize suffix absorbed.pending := by
    rw [closed_val, List.take_set, ← List.getElem?_take_of_lt (show blockSize - 1 < blockSize by omega), suffixed_take]
    exact set_set_eq_lastBlock room suffix
  obtain ⟨hash, processed, hash_lanes⟩ :=
    sha3ProcessBlock_eq offered ctx.hash (show blockSize ≤ closed.val.length by rw [closed.property]; omega)
  rw [final, if_pos unfinished, size, zeros_eq, stored, ok_bind, suffix_set, ok_bind, last_eq, bit_set, ok_bind,
    processed, ok_bind]
  beta_reduce
  rw [toList_eq_flatMap, digest_eq, readFirst_of_le, hash_lanes, hash_eq, closed_take]
  · rfl
  · rw [laneBytes_length]
    omega

end

/-- A new context stands for nothing absorbed. -/
theorem keccakInit_standsFor {bits : ℕ} (offered : bits ∈ digestBits) :
    200 - bits / 4 ∈ blockSizes ∧ StandsFor (keccakInit bits) (200 - bits / 4) ⟨fun _ _ => 0, []⟩ := by
  have sizes : ∀ bits ∈ digestBits, 200 - bits / 4 ∈ blockSizes ∧ (1600 - bits * 2) / 8 = 200 - bits / 4 := by decide
  obtain ⟨known, size⟩ := sizes bits offered
  refine ⟨known, size, ?_, rfl, rfl, ?_⟩
  · funext x y
    rw [lanes, keccakInit, Fin.getElem_fin]
    exact Vector.getElem_replicate _
  · exact (blockSize_bounds known).1

theorem digest_eq_hash {bits : ℕ} (offered : bits ∈ digestBits) (suffix : UInt8) (pieces : List Piece) :
    (updates (keccakInit bits) pieces >>= final suffix) =
      .ok (Keccak.hash (200 - bits / 4) suffix (bits / 8) (pieces.flatMap Piece.bytes), Sha3Ctx.cleared) := by
  obtain ⟨known, stands⟩ := keccakInit_standsFor offered
  obtain ⟨ctx, run, stands⟩ := updates_standsFor known stands pieces
  have lengths : ∀ bits ∈ digestBits, 100 - (200 - bits / 4) / 2 = bits / 8 := by decide
  rw [run, ok_bind, final_standsFor known stands, lengths bits offered]
  rfl

/-- The digest of any sequence of updates is the hash of the bytes in their order, wherever the pieces
lie, and the context is cleared behind it. -/
theorem digests_exact {bits : ℕ} (offered : bits ∈ digestBits) (pieces : List Piece) :
    (updates (keccakInit bits) pieces >>= keccakFinal) =
        .ok (Keccak.hash (200 - bits / 4) 0x01 (bits / 8) (pieces.flatMap Piece.bytes), Sha3Ctx.cleared) ∧
      (updates (keccakInit bits) pieces >>= sha3Final) =
        .ok (Keccak.hash (200 - bits / 4) 0x06 (bits / 8) (pieces.flatMap Piece.bytes), Sha3Ctx.cleared) :=
  ⟨digest_eq_hash offered 0x01 pieces, digest_eq_hash offered 0x06 pieces⟩

/-- More than a block, and a byte at an odd address. -/
def twoPieces : List Piece :=
  [⟨0x1000, List.replicate 150 0x61, by rw [List.length_replicate]; decide⟩, ⟨0x2001, [0x62], by decide⟩]

theorem twoPieces_digests :
    (updates (keccakInit 256) twoPieces >>= keccakFinal) =
        .ok (Keccak.hash 136 0x01 32 (twoPieces.flatMap Piece.bytes), Sha3Ctx.cleared) ∧
      (updates (keccakInit 256) twoPieces >>= sha3Final) =
        .ok (Keccak.hash 136 0x06 32 (twoPieces.flatMap Piece.bytes), Sha3Ctx.cleared) :=
  digests_exact (by decide) twoPieces

/-! ## The hash that the signer uses -/

/-- The hash of 256 bits as an array. -/
def repositoryKeccak : Keccak := fun data =>
  ⟨(Keccak.hash 136 0x01 32 data).toArray, Keccak.hash_length (by decide) data⟩

/-- A context of 256 bits that has absorbed the bytes. -/
def Absorbed (ctx : Sha3Ctx) (bytes : Bytes) : Prop :=
  StandsFor ctx 136 (Absorption.feed absorbBlock 136 ⟨fun _ _ => 0, []⟩ bytes)

theorem absorbed_init : Absorbed (keccakInit 256) [] := (keccakInit_standsFor (by decide)).2

/-- An update of the context is one of the bytes that it has absorbed. -/
theorem absorbed_update {ctx : Sha3Ctx} {bytes : Bytes} (absorbed : Absorbed ctx bytes) (address : ℕ) {data : Bytes}
    (bound : data.length < 2 ^ 63) :
    ∃ next, sha3Update ctx address data = .ok next ∧ Absorbed next (Signer.sha3Update bytes data data.length) := by
  obtain ⟨next, updated, stands⟩ := sha3Update_standsFor (by decide) absorbed ⟨address, data, bound⟩
  refine ⟨next, updated, ?_⟩
  rwa [Absorbed, Signer.sha3Update, List.take_length, Absorption.feed_append]

theorem absorbed_digit {ctx : Sha3Ctx} {bytes : Bytes} (absorbed : Absorbed ctx bytes) (length digitAt place : ℕ) :
    ∃ next, updateDigit length digitAt ctx place = .ok next ∧
      Absorbed next (Signer.absorbDigit length bytes place) := by
  rw [updateDigit, Signer.absorbDigit]
  split_ifs with reaches
  · exact absorbed_update absorbed digitAt (show 1 < 2 ^ 63 by decide)
  · exact ⟨ctx, rfl, absorbed⟩

theorem absorbed_digits {ctx : Sha3Ctx} {bytes : Bytes} (absorbed : Absorbed ctx bytes) (length digitAt : ℕ)
    (places : List ℕ) :
    ∃ next, places.foldlM (updateDigit length digitAt) ctx = .ok next ∧
      Absorbed next (places.foldl (Signer.absorbDigit length) bytes) := by
  induction places generalizing ctx bytes with
  | nil => exact ⟨ctx, rfl, absorbed⟩
  | cons place rest ih =>
    obtain ⟨next, updated, absorbed⟩ := absorbed_digit absorbed length digitAt place
    rw [List.foldlM_cons, updated, ok_bind, List.foldl_cons]
    exact ih absorbed

theorem absorbed_final {ctx : Sha3Ctx} {bytes : Bytes} (absorbed : Absorbed ctx bytes) :
    keccakFinal ctx = .ok ((repositoryKeccak bytes).toList, Sha3Ctx.cleared) :=
  final_standsFor (by decide) absorbed 0x01

/-- `keccak_256` is the hash, wherever the data lie. -/
theorem keccak256_eq (address : ℕ) {data : Bytes} (bound : data.length < 2 ^ 63) :
    keccak256 address data = .ok (repositoryKeccak data).toList := by
  obtain ⟨ctx, updated, absorbed⟩ := absorbed_update absorbed_init address bound
  rw [Signer.sha3Update, List.take_length, List.nil_append] at absorbed
  rw [keccak256, updated, ok_bind, absorbed_final absorbed]
  rfl

/-- On its context the hash of a message is that of the title, the decimal length and the message. -/
theorem getEthereumMessageHash_exact (titleAt digitAt messageAt : ℕ) {pMsg : Bytes} (bound : pMsg.length < 10 ^ 10) :
    getEthereumMessageHash titleAt digitAt messageAt pMsg =
      .ok (repositoryKeccak (ethereumMessage pMsg)).toList := by
  obtain ⟨titled, title_run, absorbed⟩ := absorbed_update absorbed_init titleAt
    (show (ascii "\x19Ethereum Signed Message:\n").length < 2 ^ 63 by decide)
  obtain ⟨counted, count_run, absorbed⟩ := absorbed_digits absorbed pMsg.length digitAt
    [1000000000, 100000000, 10000000, 1000000, 100000, 10000, 1000, 100, 10]
  have one_byte : [UInt8.ofNat (48 + pMsg.length % 10)].length < 2 ^ 63 := show 1 < 2 ^ 63 by decide
  obtain ⟨numbered, last_run, absorbed⟩ := absorbed_update absorbed digitAt one_byte
  obtain ⟨full, message_run, absorbed⟩ := absorbed_update absorbed messageAt (show pMsg.length < 2 ^ 63 by omega)
  rw [List.length_singleton, absorb_length bound, Signer.sha3Update, Signer.sha3Update, List.take_length,
    List.take_length, List.nil_append] at absorbed
  have message_eq : ethereumMessage pMsg =
      ascii "\x19Ethereum Signed Message:\n" ++ decimal pMsg.length ++ pMsg := by
    rw [List.append_assoc]
    rfl
  rw [getEthereumMessageHash, title_run, ok_bind, count_run, ok_bind, last_run, ok_bind, message_run, ok_bind,
    absorbed_final absorbed, message_eq]
  rfl

/-- A message of twelve characters. -/
theorem hello_hashed :
    getEthereumMessageHash 0x1000 0x2001 0x3000 (ascii "Hello, IoTeX") =
      .ok (repositoryKeccak (ethereumMessage (ascii "Hello, IoTeX"))).toList :=
  getEthereumMessageHash_exact 0x1000 0x2001 0x3000 (by decide)

end Iotex
