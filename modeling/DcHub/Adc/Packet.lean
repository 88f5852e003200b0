import DcHub.Adc.Slice
import Mathlib.Data.List.AList
import Mathlib.Data.Vector.Defs

/-! # ADC packets

The eight packet structs of the ADC packet file, as one tagged union, with the
bytes the codec writes and the errors the decoder returns. The address types
`SID` and `CID` and their text codecs live in another file of the package; the
codec takes them as a parameter and the round-trip theorems state what they
assume of them.
-/

namespace DcHub.Adc

/-- The frame terminator `lineDelim`, LF. -/
def lineDelim : UInt8 := 0x0a
def space : UInt8 := 0x20
def plus : UInt8 := 0x2b
def minus : UInt8 := 0x2d

def kindBroadcast : UInt8 := 0x42
def kindClient : UInt8 := 0x43
def kindDirect : UInt8 := 0x44
def kindEcho : UInt8 := 0x45
def kindFeature : UInt8 := 0x46
def kindHub : UInt8 := 0x48
def kindInfo : UInt8 := 0x49
def kindUDP : UInt8 := 0x55

/-- A Go byte array `[n]byte`. -/
abbrev GoArray (n : Nat) := Mathlib.Vector UInt8 n

/-- `var a [n]byte; copy(a[:], src)`. -/
def GoArray.copyOf (n : Nat) (src : List UInt8) : GoArray n :=
  ⟨copyAt (List.replicate n 0) 0 src, by simp⟩

@[simp] theorem GoArray.copyOf_toList {n : Nat} (a : GoArray n) :
    GoArray.copyOf n a.toList = a := by
  obtain ⟨l, hl⟩ := a
  apply Subtype.ext
  simp [GoArray.copyOf, copyAt, Mathlib.Vector.toList_mk, hl]

/-- The three-letter command name. -/
abbrev MsgType := GoArray 3

/-- A four-byte feature tag such as `TCP4`. -/
abbrev Feature := GoArray 4

/-- A Go `map[Feature]bool`, its entries listed in the order `range` visits them. -/
abbrev FeatureMap := AList (fun _ : Feature => Bool)

/-- The codecs of the address types: `SID.MarshalAdc` (every caller drops its
error), `SID.UnmarshalAdc`, `CID.ToBase32` and `CID.FromBase32`. -/
structure Codec (SID CID : Type) where
  marshalSid : SID → List UInt8
  unmarshalSid : List UInt8 → Except String SID
  toBase32 : CID → List UInt8
  fromBase32 : List UInt8 → Except String CID

/-- A byte of the base32 alphabet, `A`-`Z` and `2`-`7`. -/
def isBase32 (b : UInt8) : Bool := (0x41 ≤ b && b ≤ 0x5a) || (0x32 ≤ b && b ≤ 0x37)

/-- Modelled from the spec: the address codecs, whose file is not among the
sources. A SID is four base32 characters and a CID thirty-nine; each is written
as its characters and read back only when it has that shape. -/
def base32Codec : Codec (List UInt8) (List UInt8) where
  marshalSid := id
  unmarshalSid b := if b.length = 4 ∧ b.all isBase32 then .ok b else .error "wrong SID"
  toBase32 := id
  fromBase32 b := if b.length = 39 ∧ b.all isBase32 then .ok b else .error "wrong CID"

/-- The packet structs; `EchoPacket` is declared as a `DirectPacket` with its
own kind byte. -/
inductive Packet (SID CID : Type) where
  | info (name : MsgType) (data : List UInt8)
  | hub (name : MsgType) (data : List UInt8)
  | broadcast (name : MsgType) (id : SID) (data : List UInt8)
  | direct (name : MsgType) (id targ : SID) (data : List UInt8)
  | echo (name : MsgType) (id targ : SID) (data : List UInt8)
  | feature (name : MsgType) (id : SID) (features : FeatureMap) (data : List UInt8)
  | client (name : MsgType) (data : List UInt8)
  | udp (name : MsgType) (id : CID) (data : List UInt8)
  deriving DecidableEq

namespace Packet

variable {SID CID : Type}

/-- `Kind()`. -/
def kind : Packet SID CID → UInt8
  | info .. => kindInfo
  | hub .. => kindHub
  | broadcast .. => kindBroadcast
  | direct .. => kindDirect
  | echo .. => kindEcho
  | feature .. => kindFeature
  | client .. => kindClient
  | udp .. => kindUDP

def name : Packet SID CID → MsgType
  | info n _ | hub n _ | broadcast n _ _ | direct n _ _ _ | echo n _ _ _
  | feature n _ _ _ | client n _ | udp n _ _ => n

def data : Packet SID CID → List UInt8
  | info _ d | hub _ d | broadcast _ _ d | direct _ _ _ d | echo _ _ _ d
  | feature _ _ _ d | client _ d | udp _ _ d => d

end Packet

/-- Go's `string(b)` of a byte string, one character per byte. -/
def latin1 (b : List UInt8) : String := String.mk (b.map fun x => Char.ofNat x.toNat)

/-- The errors of the decoder, one constructor per error text of the source. -/
inductive PacketError where
  | tooShort (p : List UInt8)
  | nullChars
  | unknownKind (k : UInt8)
  | nameSeparator
  | invalidDelimiter
  | short (text : String)
  | separatorExpected (got : List UInt8)
  | shortFeature (got : List UInt8)
  | sid (e : String)
  | wrongCid (e : String)
  deriving DecidableEq, Repr

/-- The text the source gives each error. -/
def PacketError.text : PacketError → String
  | tooShort p => "too short for command: '" ++ latin1 p ++ "'"
  | nullChars => "messages should not contain null characters"
  | unknownKind k => "unknown command kind: " ++ latin1 [k]
  | nameSeparator => "name separator expected"
  | invalidDelimiter => "invalid packet delimiter"
  | short t => t
  | separatorExpected got => "separator expected: '" ++ latin1 got ++ "'"
  | shortFeature got => "short feature: '" ++ latin1 got ++ "'"
  | sid e => e
  | wrongCid e => "wrong CID in upd command: " ++ e

/-- A call of the decoder. -/
abbrev Dec (α : Type) := Go PacketError α

/-- Return a Go error. -/
def fail {α : Type} (e : PacketError) : Dec α := throw (.error e)

end DcHub.Adc
