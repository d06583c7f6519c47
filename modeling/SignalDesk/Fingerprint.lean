import SignalDesk.Blake3
import SignalDesk.Parameters

namespace SignalDesk

/-- Eight bytes, the lowest first. -/
def wordBytes (word : UInt64) : List UInt8 :=
  [(word >>> 0).toUInt8, (word >>> 8).toUInt8, (word >>> 16).toUInt8, (word >>> 24).toUInt8,
    (word >>> 32).toUInt8, (word >>> 40).toUInt8, (word >>> 48).toUInt8, (word >>> 56).toUInt8]

def utf8Bytes (s : String) : List UInt8 := s.toUTF8.data.toList

/-- A text behind the number of its bytes. -/
def textBytes (s : String) : List UInt8 :=
  wordBytes (utf8Bytes s).length.toUInt64 ++ utf8Bytes s

/-- A number by its bits behind the letter n, a text behind the letter t. -/
def Setting.encoded : Setting → List UInt8
  | .number value => 'n'.toUInt8 :: wordBytes value.toBits
  | .text value => 't'.toUInt8 :: textBytes value

namespace Parameters

/-- Every part is either of a fixed length or stands behind its length. -/
def encoded (p : Parameters) : List UInt8 :=
  textBytes p.strategyId ++ (if p.enabled then 1 else 0) :: wordBytes p.values.size.toUInt64 ++
    p.values.entries.flatMap fun (name, value) => textBytes name ++ value.encoded

def fingerprint (p : Parameters) : String := Blake3.hexDigest p.encoded

/-- The part of a fingerprint that is shown. -/
def shortFingerprint (p : Parameters) : String := String.ofList (p.fingerprint.toList.take 12)

end Parameters

end SignalDesk
