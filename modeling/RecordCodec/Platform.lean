import RecordCodec.Bytes.Order
import RecordCodec.Charset.Basic
import RecordCodec.Decimal.Packed
import RecordCodec.Decimal.Zoned

/-!
What differs between the machines a database runs on: byte order, the byte that fills up text, the
signs of decimals and the character set. The architecture byte decides all but the character set; a
mainframe has zero in its high half.
-/
namespace RecordCodec

open Decimal (PackedSigns Zones)

structure Platform where
  architecture : UInt8
  packedSigns : PackedSigns
  charset : Option Charset
  deriving DecidableEq, Repr

namespace Platform

def isMainframeByte (architecture : UInt8) : Bool :=
  architecture &&& 0xF0 == 0

def ofArchitecture (architecture : UInt8) : Platform where
  architecture := architecture
  packedSigns := if isMainframeByte architecture then .mainframe else .openSystem
  charset := none

def mainframe : Platform := ofArchitecture 0x00

def openSystem : Platform := ofArchitecture 0x20

def lowOrderFirst : Platform := ofArchitecture 0x21

def ofSession (token : UInt64) : Platform :=
  ofArchitecture (token >>> 24).toUInt8

def isMainframe (p : Platform) : Bool :=
  isMainframeByte p.architecture

def byteOrder (p : Platform) : ByteOrder :=
  if p.architecture = 0x21 then .little else .big

def space (p : Platform) : UInt8 :=
  if p.isMainframe then 0x40 else 0x20

def zones (p : Platform) : Zones :=
  if p.isMainframe then .mainframe else .openSystem

end Platform

end RecordCodec
