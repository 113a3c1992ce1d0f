import Iotex.Lib.Bytes

/-! # The protocol-buffer encoder

The part of the bundled nanopb encoder that the library's messages reach: singular unsigned
integers, callback fields and submessages in a oneof. A function returns its `bool` together with
the stream as it leaves it, so that what was written before a failure stays visible. Sizes are the
sizes of objects in memory, which no sum of them lets wrap around.
-/

namespace Iotex.Nanopb

/-- `pb_ostream_t`. A stream without a buffer has no callback and only counts; `buffer` holds what
the callback has stored, across the substreams that share it. -/
structure OStream where
  buffer : Option Bytes
  maxSize : ℕ
  bytesWritten : ℕ
deriving DecidableEq, Repr

/-- `PB_OSTREAM_SIZING`. -/
def OStream.sizing : OStream := ⟨none, 0, 0⟩

def pbOstreamFromBuffer (bufsize : ℕ) : OStream := ⟨some [], bufsize, 0⟩

/-- A step that runs only if the one before it returned `true`. -/
def andThen (first : Bool × OStream) (next : OStream → Bool × OStream) : Bool × OStream :=
  if first.1 then next first.2 else first

/-- `pb_write` of the first `count` bytes behind a pointer, which a counting stream does not read. -/
def pbWrite (stream : OStream) (buf : Bytes) (count : ℕ) : Bool × OStream :=
  match stream.buffer with
  | some buffer =>
    if 0 < count ∧ stream.maxSize < stream.bytesWritten + count then (false, stream)
    else (true, ⟨some (buffer ++ buf.take count), stream.maxSize, stream.bytesWritten + count⟩)
  | none => (true, { stream with bytesWritten := stream.bytesWritten + count })

/-! ## Varints -/

/-- The first loop of `pb_encode_varint_32` with the rounds left: what it stores and the pending byte. -/
def varintLow : ℕ → UInt8 → UInt32 → UInt32 → Bytes × UInt8
  | 0, byte, _, _ => ([], byte)
  | left + 1, byte, low, high =>
    if low ≠ 0 ∨ high ≠ 0 then
      let (buffer, last) := varintLow left (low &&& 0x7F).toUInt8 (low >>> 7) high
      ((byte ||| 0x80) :: buffer, last)
    else ([], byte)

/-- The second loop and the last byte; the 29 bits that are left take at most five rounds. -/
def varintHigh : ℕ → UInt8 → UInt32 → Bytes
  | 0, byte, _ => [byte]
  | left + 1, byte, high =>
    if high ≠ 0 then (byte ||| 0x80) :: varintHigh left (high &&& 0x7F).toUInt8 (high >>> 7) else [byte]

/-- The bytes of a number given by its halves. -/
def varintBytes32 (low high : UInt32) : Bytes :=
  let (buffer, byte) := varintLow 4 (low &&& 0x7F).toUInt8 (low >>> 7) high
  if high ≠ 0 then buffer ++ varintHigh 5 (byte ||| ((high &&& 0x07) <<< 4).toUInt8) (high >>> 3)
  else buffer ++ [byte]

def pbEncodeVarint32 (stream : OStream) (low high : UInt32) : Bool × OStream :=
  pbWrite stream (varintBytes32 low high) (varintBytes32 low high).length

def pbEncodeVarint (stream : OStream) (value : UInt64) : Bool × OStream :=
  if value ≤ 0x7F then pbWrite stream [value.toUInt8] 1
  else pbEncodeVarint32 stream value.toUInt32 (value >>> 32).toUInt32

/-! ## Fields -/

/-- The `PB_LTYPE` of a field. -/
inductive LType where
  | uvarint
  | bytes
  | string
  | submessage
deriving DecidableEq, Repr

def pbEncodeTag (stream : OStream) (wiretype fieldNumber : ℕ) : Bool × OStream :=
  pbEncodeVarint stream (UInt64.ofNat (fieldNumber <<< 3 ||| wiretype))

def pbEncodeTagForField (stream : OStream) (ltype : LType) (tag : ℕ) : Bool × OStream :=
  pbEncodeTag stream (if ltype = .uvarint then 0 else 2) tag

def pbEncodeString (stream : OStream) (buffer : Bytes) (size : ℕ) : Bool × OStream :=
  andThen (pbEncodeVarint stream (UInt64.ofNat size)) fun stream => pbWrite stream buffer size

/-- The function of a callback field, with its argument; it is given the field's type and tag. -/
abbrev EncodeFunction := LType → ℕ → OStream → Bool × OStream

/-- A field together with its value. -/
inductive PbField where
  /-- `STATIC, SINGULAR` of type `UINT32` or `UINT64`. -/
  | singular (tag : ℕ) (value : UInt64)
  /-- `CALLBACK, SINGULAR`. -/
  | callback (ltype : LType) (tag : ℕ) (encode : Option EncodeFunction)
  /-- `STATIC, ONEOF, MESSAGE`, with the tag that the oneof holds. -/
  | oneof (which : ℕ) (tag : ℕ) (fields : List PbField)

/-- `pb_encode_submessage`: the size comes from a counting pass over the same fields. -/
def pbEncodeSubmessage (encode : OStream → Bool × OStream) (stream : OStream) : Bool × OStream :=
  let (sized, substream) := encode OStream.sizing
  if !sized then (false, stream)
  else
    let size := substream.bytesWritten
    andThen (pbEncodeVarint stream (UInt64.ofNat size)) fun stream =>
      match stream.buffer with
      | none => pbWrite stream [] size
      | some buffer =>
        if stream.maxSize < stream.bytesWritten + size then (false, stream)
        else
          let (status, substream) := encode ⟨some buffer, size, 0⟩
          let stream := ⟨substream.buffer, stream.maxSize, stream.bytesWritten + substream.bytesWritten⟩
          if substream.bytesWritten ≠ size then (false, stream) else (status, stream)

mutual

def encodeField : PbField → OStream → Bool × OStream
  | .singular tag value, stream =>
    -- a proto3 singular field that holds its default
    if value = 0 then (true, stream)
    else andThen (pbEncodeTagForField stream .uvarint tag) fun stream => pbEncodeVarint stream value
  | .callback ltype tag encode, stream =>
    match encode with
    | none => (true, stream)
    | some encode => encode ltype tag stream
  | .oneof which tag fields, stream =>
    if which ≠ tag then (true, stream)
    else andThen (pbEncodeTagForField stream .submessage tag) fun stream =>
      pbEncodeSubmessage (fun stream => pbEncode fields stream) stream
termination_by structural field => field

def pbEncode : List PbField → OStream → Bool × OStream
  | [], stream => (true, stream)
  | field :: rest, stream => andThen (encodeField field stream) fun stream => pbEncode rest stream
termination_by structural fields => fields

end

end Iotex.Nanopb
