import BlockExchange.Cbor.Reader
import BlockExchange.Cbor.Writer
import BlockExchange.Wire.Layout
/-!
Frames: a payload in CBOR behind its length. A connection opens with one hello frame in each
direction, which also carries a magic number; messages follow.
-/

namespace BlockExchange

inductive CodecError where
  | decode (cause : Cbor.Error)
  | tooLarge (length : Nat)
  | badMagic (magic : Nat)
  deriving DecidableEq, Repr

def hexWord (n : Nat) : String :=
  Hex.encode (Bytes.bigEndian 4 n)

def CodecError.message : CodecError → String
  | decode cause => "decode error: " ++ cause.message
  | tooLarge length => s!"frame too large: {length} bytes"
  | badMagic magic => "bad hello magic: 0x" ++ hexWord magic

namespace Frame

def helloMagic : Nat := 0x2ea7d90b
def helloHeaderLength : Nat := 6
def maxHelloLength : Nat := 0xffff
def headerLength : Nat := 4
def maxLength : Nat := 16 * 1024 * 1024

def encodeHello (h : Hello) : Except CodecError Bytes :=
  let payload := Wire.hello.toCbor h
  let length := payload.length
  if maxHelloLength < length then .error (.tooLarge length)
  else .ok (Bytes.bigEndian 4 helloMagic ++ (Bytes.bigEndian 2 length ++ payload))

def encode (m : Message) : Except CodecError Bytes :=
  let payload := Wire.message.toCbor m
  let length := payload.length
  if maxLength < length then .error (.tooLarge length)
  else .ok (Bytes.bigEndian 4 length ++ payload)

def helloPayloadLength (header : Bytes) : Except CodecError Nat :=
  let magic := Bytes.toNat (header.take 4)
  if magic ≠ helloMagic then .error (.badMagic magic) else .ok (Bytes.toNat (header.drop 4))

def payloadLength (header : Bytes) : Except CodecError Nat :=
  let length := Bytes.toNat header
  if maxLength < length then .error (.tooLarge length) else .ok length

def decodeHello (payload : Bytes) : Except CodecError Hello :=
  (Wire.hello.ofCbor payload).mapError .decode

def decode (payload : Bytes) : Except CodecError Message :=
  (Wire.message.ofCbor payload).mapError .decode

structure Format (α : Type) where
  headerLength : Nat
  payloadLength : Bytes → Except CodecError Nat
  decode : Bytes → Except CodecError α

def helloFormat : Format Hello := ⟨helloHeaderLength, helloPayloadLength, decodeHello⟩

def messageFormat : Format Message := ⟨headerLength, payloadLength, decode⟩

end Frame

end BlockExchange
