import Mathlib

/-!
# Receive-only classic CAN frames
-/

namespace VehicleCanCore
namespace Core

def kCanClassicPayloadBytes : ℕ := 8

inductive CanIdentifierFormat
  | standard
  | extended
  deriving DecidableEq, Repr

/-- A frame is copied by value through the acquisition queue. -/
structure RawCanFrame where
  timestampUs : UInt64 := 0
  busId : UInt8 := 0
  identifier : UInt32 := 0
  identifierFormat : CanIdentifierFormat := .standard
  remoteRequest : Bool := false
  dlc : UInt8 := 0
  data : Vector UInt8 kCanClassicPayloadBytes := Vector.replicate kCanClassicPayloadBytes 0
  deriving DecidableEq, Repr

namespace RawCanFrame

def isValid (frame : RawCanFrame) : Bool :=
  if frame.dlc.toNat > kCanClassicPayloadBytes then false
  else
    match frame.identifierFormat with
    | .standard => frame.identifier ≤ 0x7ff
    | .extended => frame.identifier ≤ 0x1fffffff

instance : Inhabited RawCanFrame := ⟨{}⟩

end RawCanFrame
end Core
end VehicleCanCore
