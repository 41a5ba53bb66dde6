import MatchingEngine.Data.Bytes
import MatchingEngine.Types
import Mathlib.Logic.Function.Iterate

/-!
# The journal format

The encoder and the decoder of `src/journal.cpp`. A journal is a file header followed by frames. A
frame is a header of 24 bytes, with a CRC-32C of the rest of the frame in its last four, and the
payload of one command. Numbers are written most significant byte first.

A `std::vector<std::byte>` and a `std::span<const std::byte>` are lists of bytes. Where the source
indexes a span, it has compared the size of the span before; `byteAt` is that access.

## Main definitions

* `encodeFileHeader`, `decodeFileHeader`.
* `encodeRecord`, `decodeRecordPrefix`, `decodeRecord`.
* `crc32cUpdate`, `frameCrc`, `crc32c`.
-/

namespace MatchingEngine

/-! ### Data -/

structure JournalSequence where
  value : UInt64
  deriving DecidableEq, Repr

inductive JournalRecordType where
  | submitLimitOrder
  | cancelOrder
  deriving DecidableEq, Repr

/-- The underlying value of a record type. -/
def JournalRecordType.raw : JournalRecordType → UInt8
  | submitLimitOrder => 1
  | cancelOrder => 2

inductive JournalCodecError where
  | invalidFileMagic
  | unsupportedJournalVersion
  | unsupportedMatchingRulesVersion
  | invalidReservedBytes
  | invalidFrameMagic
  | unsupportedRecordVersion
  | unsupportedRecordType
  | invalidFlags
  | invalidPayloadLength
  | invalidJournalSequence
  | checksumMismatch
  | truncatedInput
  | unexpectedTrailingBytes
  deriving DecidableEq, Repr

/-- The bytes of `MATCHJNL`. -/
def journalFileMagic : List UInt8 := [0x4D, 0x41, 0x54, 0x43, 0x48, 0x4A, 0x4E, 0x4C]

def journalFormatVersion : UInt16 := 1

def matchingRulesVersion : UInt16 := 1

/-- The bytes of `MJR1`. -/
def journalFrameMagic : List UInt8 := [0x4D, 0x4A, 0x52, 0x31]

def journalRecordVersion : UInt8 := 1

def journalFileHeaderSize : ℕ := 16

def journalFrameHeaderSize : ℕ := 24

def journalMaximumPayloadLength : ℕ := 64

def submitLimitOrderPayloadSize : ℕ := 25

def cancelOrderPayloadSize : ℕ := 8

def formatVersionOffset : ℕ := 8

def matchingRulesVersionOffset : ℕ := 10

def reservedOffset : ℕ := 12

def recordVersionOffset : ℕ := 4

def recordTypeOffset : ℕ := 5

def flagsOffset : ℕ := 6

def payloadLengthOffset : ℕ := 8

def sequenceOffset : ℕ := 12

def checksumOffset : ℕ := 20

def payloadOffset : ℕ := 24

def crcHeaderLength : ℕ := 16

structure JournalFileHeader where
  journalFormatVersion : UInt16
  matchingRulesVersion : UInt16
  deriving DecidableEq, Repr

structure JournalRecord where
  sequence : JournalSequence
  command : JournalCommand
  deriving DecidableEq, Repr

structure DecodedJournalRecord where
  record : JournalRecord
  bytesConsumed : ℕ
  deriving DecidableEq, Repr

/-! ### Numbers in bytes -/

def appendU8 (bytes : List UInt8) (value : UInt8) : List UInt8 := bytes ++ [value]

def appendU16 (bytes : List UInt8) (value : UInt16) : List UInt8 :=
  appendU8 (appendU8 bytes (value >>> 8).toUInt8) value.toUInt8

def appendU32 (bytes : List UInt8) (value : UInt32) : List UInt8 :=
  appendU8 (([24, 16, 8] : List UInt32).foldl
    (fun bytes shift => appendU8 bytes (value >>> shift).toUInt8) bytes) value.toUInt8

def appendU64 (bytes : List UInt8) (value : UInt64) : List UInt8 :=
  appendU8 (([56, 48, 40, 32, 24, 16, 8] : List UInt64).foldl
    (fun bytes shift => appendU8 bytes (value >>> shift).toUInt8) bytes) value.toUInt8

def hasBytes (bytes : List UInt8) (offset count : ℕ) : Bool :=
  offset ≤ bytes.length ∧ count ≤ bytes.length - offset

/-- `bytes[offset]`. -/
def byteAt (bytes : List UInt8) (offset : ℕ) : UInt8 := bytes.getD offset 0

def readU16 (bytes : List UInt8) (offset : ℕ) : UInt16 :=
  ((byteAt bytes offset).toUInt16 <<< 8) ||| (byteAt bytes (offset + 1)).toUInt16

def readU32 (bytes : List UInt8) (offset : ℕ) : UInt32 :=
  (List.range 4).foldl
    (fun value index => (value <<< 8) ||| (byteAt bytes (offset + index)).toUInt32) 0

def readU64 (bytes : List UInt8) (offset : ℕ) : UInt64 :=
  (List.range 8).foldl
    (fun value index => (value <<< 8) ||| (byteAt bytes (offset + index)).toUInt64) 0

def startsWith (bytes magic : List UInt8) : Bool :=
  bytes.length ≥ magic.length ∧ bytes.take magic.length = magic

/-! ### Checksums -/

/-- `0x1EDC6F41` with its bits reversed. -/
def reflectedPolynomial : UInt32 := 0x82F63B78

/-- The body of the inner loop of `crc32c_update`. -/
def crc32cBit (crc : UInt32) : UInt32 :=
  let mask := 0 - (crc &&& 1)
  (crc >>> 1) ^^^ (reflectedPolynomial &&& mask)

def crc32cUpdate (state : UInt32) (bytes : List UInt8) : UInt32 :=
  bytes.foldl (fun crc byte => crc32cBit^[8] (crc ^^^ byte.toUInt32)) state

def frameCrc (headerAndPayload : List UInt8) (payloadLength : ℕ) : UInt32 :=
  let crc := crc32cUpdate 0xFFFFFFFF (headerAndPayload.slice recordVersionOffset crcHeaderLength)
  let crc := crc32cUpdate crc (headerAndPayload.slice payloadOffset payloadLength)
  ~~~crc

def crc32c (bytes : List UInt8) : UInt32 := ~~~(crc32cUpdate 0xFFFFFFFF bytes)

/-! ### The file header -/

def encodeFileHeader : List UInt8 :=
  let bytes := journalFileMagic
  let bytes := appendU16 bytes journalFormatVersion
  let bytes := appendU16 bytes matchingRulesVersion
  appendU32 bytes 0

def decodeFileHeader (bytes : List UInt8) : Except JournalCodecError JournalFileHeader :=
  if bytes.length < journalFileHeaderSize then .error .truncatedInput
  else if bytes.length > journalFileHeaderSize then .error .unexpectedTrailingBytes
  else if ¬ startsWith bytes journalFileMagic then .error .invalidFileMagic
  else if readU16 bytes formatVersionOffset ≠ journalFormatVersion then
    .error .unsupportedJournalVersion
  else if readU16 bytes matchingRulesVersionOffset ≠ matchingRulesVersion then
    .error .unsupportedMatchingRulesVersion
  else if readU32 bytes reservedOffset ≠ 0 then .error .invalidReservedBytes
  else .ok ⟨journalFormatVersion, matchingRulesVersion⟩

/-! ### Records -/

def expectedPayloadLength : JournalRecordType → ℕ
  | .submitLimitOrder => submitLimitOrderPayloadSize
  | .cancelOrder => cancelOrderPayloadSize

def decodeRecordType (rawType : UInt8) : Except JournalCodecError JournalRecordType :=
  if rawType = JournalRecordType.submitLimitOrder.raw then .ok .submitLimitOrder
  else if rawType = JournalRecordType.cancelOrder.raw then .ok .cancelOrder
  else .error .unsupportedRecordType

def encodePayload : JournalCommand → List UInt8
  | .submitLimitOrder order =>
    let payload := appendU64 [] order.id.value
    let payload := appendU8 payload order.side.raw
    let payload := appendU64 payload order.limitPrice.ticks
    appendU64 payload order.quantity.units
  | .cancelOrder orderId => appendU64 [] orderId.value

def recordTypeFor : JournalCommand → JournalRecordType
  | .submitLimitOrder _ => .submitLimitOrder
  | .cancelOrder _ => .cancelOrder

def encodeRecord (sequence : JournalSequence) (command : JournalCommand) :
    Except JournalCodecError (List UInt8) :=
  if sequence.value = 0 then .error .invalidJournalSequence
  else
    let payload := encodePayload command
    let bytes := journalFrameMagic
    let bytes := appendU8 bytes journalRecordVersion
    let bytes := appendU8 bytes (recordTypeFor command).raw
    let bytes := appendU16 bytes 0
    let bytes := appendU32 bytes (UInt32.ofNat payload.length)
    let bytes := appendU64 bytes sequence.value
    let bytes := appendU32 bytes 0
    let bytes := bytes ++ payload
    let checksum := frameCrc bytes payload.length
    let bytes := bytes.set checksumOffset (checksum >>> 24).toUInt8
    let bytes := bytes.set (checksumOffset + 1) (checksum >>> 16).toUInt8
    let bytes := bytes.set (checksumOffset + 2) (checksum >>> 8).toUInt8
    .ok (bytes.set (checksumOffset + 3) checksum.toUInt8)

/-- The command in a payload of the given type. -/
def decodeCommand (bytes : List UInt8) : JournalRecordType → JournalCommand
  | .submitLimitOrder =>
    .submitLimitOrder
      { id := ⟨readU64 bytes payloadOffset⟩
        side := ⟨byteAt bytes (payloadOffset + 8)⟩
        limitPrice := ⟨readU64 bytes (payloadOffset + 9)⟩
        quantity := ⟨readU64 bytes (payloadOffset + 17)⟩ }
  | .cancelOrder => .cancelOrder ⟨readU64 bytes payloadOffset⟩

def decodeRecordPrefix (bytes : List UInt8) : Except JournalCodecError DecodedJournalRecord :=
  if bytes.length < journalFrameHeaderSize then .error .truncatedInput
  else if ¬ startsWith bytes journalFrameMagic then .error .invalidFrameMagic
  else if byteAt bytes recordVersionOffset ≠ journalRecordVersion then
    .error .unsupportedRecordVersion
  else
    match decodeRecordType (byteAt bytes recordTypeOffset) with
    | .error e => .error e
    | .ok type =>
      let rawPayloadLength := readU32 bytes payloadLengthOffset
      let payloadLength := rawPayloadLength.toNat
      let sequence : JournalSequence := ⟨readU64 bytes sequenceOffset⟩
      if readU16 bytes flagsOffset ≠ 0 then .error .invalidFlags
      else if payloadLength > journalMaximumPayloadLength ∨
          payloadLength ≠ expectedPayloadLength type then
        .error .invalidPayloadLength
      else if ¬ hasBytes bytes payloadOffset payloadLength then .error .truncatedInput
      else if sequence.value = 0 then .error .invalidJournalSequence
      else if readU32 bytes checksumOffset ≠ frameCrc bytes payloadLength then
        .error .checksumMismatch
      else
        .ok
          { record := ⟨sequence, decodeCommand bytes type⟩
            bytesConsumed := journalFrameHeaderSize + payloadLength }

def decodeRecord (bytes : List UInt8) : Except JournalCodecError DecodedJournalRecord :=
  match decodeRecordPrefix bytes with
  | .error e => .error e
  | .ok decoded =>
    if decoded.bytesConsumed ≠ bytes.length then .error .unexpectedTrailingBytes else .ok decoded

end MatchingEngine
