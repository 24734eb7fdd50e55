import Mathlib

/-!
# Capabilities

`Capability` of `core/common_cheriv9/cheri_capability.h` with its constants and its 128-bit format
from `core/rv64_cheriv9/cheri_prelude.{h,cpp}`.

A field of the source's bit-field structure is a `BitVec` of the field's width, so a store to it
truncates as in the source.  `CapBase_t` and `CapAddr_t` are 64-bit words; `CapTop_t` and `CapLen_t`
are 128-bit words, of which the bounds use 65 bits.
-/

namespace RiscvVp

/-! ### Constants -/

/-- `cCapMantissaWidth`: the bits of the bottom bound that are stored; the top bound lacks the upper two of
these. -/
def cCapMantissaWidth : ℕ := 14

/-- `cCapLenWidth`: the bits of a length, one more than those of an address, for the whole address space. -/
def cCapLenWidth : ℕ := 65

/-- `cCapMaxE`: the greatest exponent, with which the mantissa reaches the top of the lengths. -/
def cCapMaxE : ℕ := cCapLenWidth - cCapMantissaWidth + 1

/-- `cCapUPermsShift`: where the software permissions begin in the number that `CGetPerm` returns. -/
def cCapUPermsShift : ℕ := 15

/-- `cCapPermsWidth`: the bits of that number, up to the last of the four software permissions. -/
def cCapPermsWidth : ℕ := cCapUPermsShift + 4

/-- `cOtypeUnsealedUnsigned`: the object type of a capability that is not sealed, all ones. -/
def cOtypeUnsealedUnsigned : BitVec 18 := 0x3FFFF

/-- `cOtypeSentryUnsigned`: the object type of a sealed entry, which a jump unseals. -/
def cOtypeSentryUnsigned : BitVec 18 := 0x3FFFE

/-- `cCapMaxOType`: four object types are reserved. -/
def cCapMaxOType : ℕ := 0x3FFFF - 4

/-- `cNullCap128`: the pattern that is xored with the encoding, so that the null capability is zero in
memory. -/
def cNullCap128 : BitVec 128 := 0x1FFFFC018004#128 <<< 64

/-! ### The structure -/

/-- The `fields` of `Capability`: permissions, object type, flags, and the bounds in their compressed form. -/
@[ext]
structure Capability where
  uperms : BitVec 4
  permitSetCID : Bool
  accessSystemRegs : Bool
  permitUnseal : Bool
  permitCinvoke : Bool
  permitSeal : Bool
  permitStoreLocalCap : Bool
  permitStoreCap : Bool
  permitLoadCap : Bool
  permitStore : Bool
  permitLoad : Bool
  permitExecute : Bool
  global : Bool
  reserved : BitVec 2
  flagCapMode : Bool
  internalE : Bool
  E : BitVec 6
  B : BitVec 14
  T : BitVec 14
  otype : BitVec 18
  address : BitVec 64
  tag : Bool
  deriving DecidableEq, Repr

/-- `cNullCap`: no tag, no permissions, unsealed, and with bounds of the whole address space. -/
def cNullCap : Capability where
  uperms := 0
  permitSetCID := false
  accessSystemRegs := false
  permitUnseal := false
  permitCinvoke := false
  permitSeal := false
  permitStoreLocalCap := false
  permitStoreCap := false
  permitLoadCap := false
  permitStore := false
  permitLoad := false
  permitExecute := false
  global := false
  reserved := 0
  flagCapMode := false
  internalE := true
  E := 52
  B := 0
  T := 0x1000
  otype := cOtypeUnsealedUnsigned
  address := 0
  tag := false

/-- `cDefaultCap`: every permission over the whole address space. -/
def cDefaultCap : Capability where
  uperms := 0xF
  permitSetCID := true
  accessSystemRegs := true
  permitUnseal := true
  permitCinvoke := true
  permitSeal := true
  permitStoreLocalCap := true
  permitStoreCap := true
  permitLoadCap := true
  permitStore := true
  permitLoad := true
  permitExecute := true
  global := true
  reserved := 0
  flagCapMode := false
  internalE := true
  E := 52
  B := 0
  T := 0x1000
  otype := cOtypeUnsealedUnsigned
  address := 0
  tag := true

/-! ### The encoded format -/

/-- `EncCapability`: the fields of the 128 bits in memory, before they are xored with the null pattern. -/
@[ext]
structure EncCapability where
  perms : BitVec 16
  otype : BitVec 18
  reserved : BitVec 2
  flags : Bool
  internalE : Bool
  T : BitVec 12
  B : BitVec 14
  address : BitVec 64
  deriving DecidableEq, Repr

/-- `EncCapability::toCapability`: decoding.  With an internal exponent the low three bits of both bounds
hold the exponent and count as zero; the upper two bits of the top bound are made from those of the bottom,
a carry and the length. -/
def EncCapability.toCapability (tag : Bool) (c : EncCapability) : Capability :=
  let E : BitVec 6 := if c.internalE then c.T.extractLsb' 0 3 ++ c.B.extractLsb' 0 3 else 0
  let lenMSBs : BitVec 2 := if c.internalE then 1 else 0
  let T := if c.internalE then c.T &&& ~~~7#12 else c.T
  let Bs := if c.internalE then c.B &&& ~~~7#14 else c.B
  let carryOut := T < Bs.extractLsb' 0 12
  -- only two bits of the sum survive the shift into the field `T`
  let Ttop2 := Bs.extractLsb' 12 2 + lenMSBs + (BitVec.ofBool carryOut).setWidth 2
  { uperms := c.perms.extractLsb' 12 4
    permitSetCID := c.perms.getLsbD 11
    accessSystemRegs := c.perms.getLsbD 10
    permitUnseal := c.perms.getLsbD 9
    permitCinvoke := c.perms.getLsbD 8
    permitSeal := c.perms.getLsbD 7
    permitStoreLocalCap := c.perms.getLsbD 6
    permitStoreCap := c.perms.getLsbD 5
    permitLoadCap := c.perms.getLsbD 4
    permitStore := c.perms.getLsbD 3
    permitLoad := c.perms.getLsbD 2
    permitExecute := c.perms.getLsbD 1
    global := c.perms.getLsbD 0
    reserved := c.reserved
    flagCapMode := c.flags
    internalE := c.internalE
    E := E
    B := Bs
    T := Ttop2 ++ T
    otype := c.otype
    address := c.address
    tag := tag }

/-- `encCapToUint128`: the fields packed side by side, the address in the lower half and the metadata in the
upper. -/
def encCapToUint128 (cap : EncCapability) : BitVec 128 :=
  cap.address.setWidth 128 |||
    (cap.B.setWidth 128 <<< 64) |||
    (cap.T.setWidth 128 <<< 78) |||
    ((BitVec.ofBool cap.internalE).setWidth 128 <<< 90) |||
    (cap.otype.setWidth 128 <<< 91) |||
    ((BitVec.ofBool cap.flags).setWidth 128 <<< 109) |||
    (cap.reserved.setWidth 128 <<< 110) |||
    (cap.perms.setWidth 128 <<< 112)

/-- `uint128ToEncCapability`: the fields cut out of the word again, at the places where `enc_cap_to_uint128`
has put them. -/
def uint128ToEncCapability (data : BitVec 128) : EncCapability :=
  let metadata := data.extractLsb' 64 64
  { perms := metadata.extractLsb' 48 16
    reserved := metadata.extractLsb' 46 2
    flags := metadata.getLsbD 45
    otype := metadata.extractLsb' 27 18
    internalE := metadata.getLsbD 26
    T := metadata.extractLsb' 14 12
    B := metadata.extractLsb' 0 14
    address := data.extractLsb' 0 64 }

namespace Capability

/-- `Capability(__uint128_t data, bool tag)`. -/
def ofUint128 (data : BitVec 128) (tag : Bool) : Capability :=
  (uint128ToEncCapability (data ^^^ cNullCap128)).toCapability tag

/-- `Capability& operator=(int64_t)`: an integer in a capability register. -/
def ofInt (val : BitVec 64) : Capability := { cNullCap with address := val }

/-- `getCapHardPerms`: the twelve permissions that the hardware enforces, as a number with `global` at the
bottom. -/
def getCapHardPerms (c : Capability) : BitVec 12 :=
  BitVec.ofBool c.permitSetCID ++ BitVec.ofBool c.accessSystemRegs ++
    BitVec.ofBool c.permitUnseal ++ BitVec.ofBool c.permitCinvoke ++ BitVec.ofBool c.permitSeal ++
    BitVec.ofBool c.permitStoreLocalCap ++ BitVec.ofBool c.permitStoreCap ++
    BitVec.ofBool c.permitLoadCap ++ BitVec.ofBool c.permitStore ++ BitVec.ofBool c.permitLoad ++
    BitVec.ofBool c.permitExecute ++ BitVec.ofBool c.global

/-- `toEncCap`: encoding.  With an internal exponent it takes the place of the low three bits of both
bounds. -/
def toEncCap (c : Capability) : EncCapability :=
  let tHi := c.T.extractLsb' 3 9
  let bHi := c.B.extractLsb' 3 11
  let tLo := if c.internalE then c.E.extractLsb' 3 3 else c.T.extractLsb' 0 3
  let bLo := if c.internalE then c.E.extractLsb' 0 3 else c.B.extractLsb' 0 3
  { perms := c.uperms ++ c.getCapHardPerms
    otype := c.otype
    reserved := c.reserved
    flags := c.flagCapMode
    internalE := c.internalE
    T := tHi ++ tLo
    B := bHi ++ bLo
    address := c.address }

/-- `toUint128`: the word that is stored in memory, without the tag. -/
def toUint128 (c : Capability) : BitVec 128 := encCapToUint128 c.toEncCap ^^^ cNullCap128

/-! ### Bounds -/

/-- `getCapBounds`: the base and the top. -/
def getCapBounds (c : Capability) : BitVec 64 × BitVec 128 :=
  let E := min cCapMaxE c.E.toNat
  let a := c.address
  let a3 : BitVec 3 := (a >>> (E + 11)).setWidth 3
  let B3 : BitVec 3 := c.B.extractLsb' 11 3
  let T3 : BitVec 3 := c.T.extractLsb' 11 3
  let R3 := B3 - 1
  let aHi : BitVec 64 := (BitVec.ofBool (a3 < R3)).setWidth 64
  let bHi : BitVec 64 := (BitVec.ofBool (B3 < R3)).setWidth 64
  let tHi : BitVec 64 := (BitVec.ofBool (T3 < R3)).setWidth 64
  let correctionBase := bHi - aHi
  let correctionTop := tHi - aHi
  let aTop := if E + cCapMantissaWidth ≤ 63 then a >>> (E + cCapMantissaWidth) else 0
  let base : BitVec 64 :=
    (if cCapMantissaWidth + E ≤ 63 then (aTop + correctionBase) <<< (cCapMantissaWidth + E) else 0)
      ||| c.B.setWidth 64 <<< E
  let top : BitVec 128 :=
    (c.T.setWidth 128 <<< E + (aTop + correctionTop).setWidth 128 <<< (cCapMantissaWidth + E))
      &&& BitVec.ofNat 128 (2 ^ 65 - 1)
  -- the top bit cannot be right when the bounds would be more than half the address space apart
  if E < cCapMaxE - 1 ∧ 1#128 < ((top >>> 63) - (base >>> 63).setWidth 128) &&& 3#128 then
    (base, top ^^^ (1#128 <<< 64))
  else
    (base, top)

/-- `getBase`: the first address inside the bounds. -/
def getBase (c : Capability) : BitVec 64 := c.getCapBounds.1

/-- `getTop`: the address after the last one inside the bounds; it may be the end of the address space. -/
def getTop (c : Capability) : BitVec 128 := c.getCapBounds.2

/-- `getOffset`: how far the address lies above the base, modulo the size of the address space. -/
def getOffset (c : Capability) : BitVec 64 := c.address - c.getBase

/-- `getLength`: the distance between the bounds, cut to the width of a length where they are out of order. -/
def getLength (c : Capability) : BitVec 128 :=
  (c.getTop - c.getBase.setWidth 128) % BitVec.ofNat 128 (2 ^ 65)

/-- `inCapBounds`: the whole access from the address on lies inside the bounds.  The sum is taken with more
bits, so it does not wrap. -/
def inCapBounds (c : Capability) (addr size : BitVec 64) : Bool :=
  c.getBase ≤ addr ∧ addr.setWidth 128 + size.setWidth 128 ≤ c.getTop

/-- `__builtin_clzll`, which is not called at zero. -/
def clzll (x : BitVec 64) : ℕ := 63 - x.toNat.log2

/-- The exponent that `setCapBounds` chooses for a length, before rounding. -/
def boundsExponent (length : BitVec 128) : ℕ :=
  let leadingZeros :=
    if length.getLsbD 64 then 0
    else if length ≠ 0 then clzll (length.setWidth 64) + 1 else cCapLenWidth
  -- the bits of the mantissa are ignored
  cCapMaxE - min leadingZeros (cCapLenWidth - cCapMantissaWidth + 1)

/-- `setCapBounds`: the capability with the bounds set, and whether they are exact. -/
def setCapBounds (c : Capability) (base : BitVec 64) (top : BitVec 128) : Capability × Bool :=
  let length := top - base.setWidth 128
  let e := boundsExponent length
  let ie := e ≠ 0 ∨ length.getLsbD 12
  if ie then
    let Bie : BitVec 16 := ((base >>> (e + 3)).setWidth 14).setWidth 16
    let Tie : BitVec 16 := ((top >>> (e + 3)).setWidth 14).setWidth 16
    let lostSignificantBase := base % BitVec.ofNat 64 (2 ^ (e + 3)) ≠ 0
    let lostSignificantTop := top % BitVec.ofNat 128 (2 ^ (e + 3)) ≠ 0
    let Tie := Tie + (BitVec.ofBool lostSignificantTop).setWidth 16
    -- incrementing the top or losing bits of the base may have made the length grow
    if (Tie - Bie).getLsbD 10 then
      let lostSignificantBase := lostSignificantBase ∨ Bie.getLsbD 0
      let lostSignificantTop := lostSignificantTop ∨ Tie.getLsbD 0
      let Bie : BitVec 16 := ((base >>> (e + 4)).setWidth 14).setWidth 16
      let Tie : BitVec 16 := ((top >>> (e + 4)).setWidth 14).setWidth 16
      let Tie := Tie + (BitVec.ofBool lostSignificantTop).setWidth 16
      ({ c with
          address := base, E := BitVec.ofNat 6 (e + 1), B := (Bie <<< 3).setWidth 14
          T := (Tie <<< 3).setWidth 14, internalE := true },
        ¬ (lostSignificantBase ∨ lostSignificantTop))
    else
      ({ c with
          address := base, E := BitVec.ofNat 6 e, B := (Bie <<< 3).setWidth 14
          T := (Tie <<< 3).setWidth 14, internalE := true },
        ¬ (lostSignificantBase ∨ lostSignificantTop))
  else
    ({ c with
        address := base, E := BitVec.ofNat 6 e, B := base.setWidth 14, T := top.setWidth 14
        internalE := false }, true)

/-! ### Permissions, flags and object types -/

/-- `getCapPerms`: all permissions in the layout of `CGetPerm`, with a gap between those of the hardware and
those of software. -/
def getCapPerms (c : Capability) : BitVec 32 :=
  c.uperms.setWidth 32 <<< cCapUPermsShift ||| c.getCapHardPerms.setWidth 32

/-- `setCapPerms`: bits 12 to 14 are reserved and ignored. -/
def setCapPerms (c : Capability) (perms : BitVec 32) : Capability :=
  { c with
    uperms := (perms >>> cCapUPermsShift).setWidth 4
    permitSetCID := perms.getLsbD 11
    accessSystemRegs := perms.getLsbD 10
    permitUnseal := perms.getLsbD 9
    permitCinvoke := perms.getLsbD 8
    permitSeal := perms.getLsbD 7
    permitStoreLocalCap := perms.getLsbD 6
    permitStoreCap := perms.getLsbD 5
    permitLoadCap := perms.getLsbD 4
    permitStore := perms.getLsbD 3
    permitLoad := perms.getLsbD 2
    permitExecute := perms.getLsbD 1
    global := perms.getLsbD 0 }

/-- `getFlags`: the flags as a number.  There is one, for the mode in which a jump to the capability
decodes. -/
def getFlags (c : Capability) : BitVec 8 := (BitVec.ofBool c.flagCapMode).setWidth 8

/-- `setFlags`: only the bit of the mode is taken over. -/
def setFlags (c : Capability) (flags : BitVec 8) : Capability :=
  { c with flagCapMode := flags.getLsbD 0 }

/-- `isSealed`: any other object type than that of an unsealed capability seals, a sealed entry included. -/
def isSealed (c : Capability) : Bool := c.otype ≠ cOtypeUnsealedUnsigned

/-- `hasReservedOType`: an object type that software cannot seal with. -/
def hasReservedOType (c : Capability) : Bool := cCapMaxOType < c.otype.toNat

/-- `seal`: the object type is truncated to the field. -/
def sealCap (c : Capability) (otype : BitVec 32) : Capability :=
  { c with otype := otype.setWidth 18 }

/-- `unseal`: the object type becomes that of an unsealed capability, without any check. -/
def unsealCap (c : Capability) : Capability := { c with otype := cOtypeUnsealedUnsigned }

/-! ### The tag and the address -/

/-- `clearTagIf`: the tag is lost where the condition holds, and never gained. -/
def clearTagIf (c : Capability) (cond : Bool) : Capability := { c with tag := c.tag && !cond }

/-- `clearTagIfSealed`: what modifies a capability invalidates a sealed one this way. -/
def clearTagIfSealed (c : Capability) : Capability := c.clearTagIf c.isSealed

/-- `clearTag`: the capability becomes plain data, with all its fields as they are. -/
def clearTag (c : Capability) : Capability := { c with tag := false }

/-- `fastRepCheck`: whether the bounds are thought to stay representable when the address is
incremented by `i`. -/
def fastRepCheck (c : Capability) (i : BitVec 64) : Bool :=
  let E := c.E.toNat
  if cCapMaxE - 2 ≤ E then true
  else
    let iTop := i.sshiftRight (E + cCapMantissaWidth)
    let iMid : BitVec 64 := ((i >>> E).setWidth 14).setWidth 64
    let aMid : BitVec 64 := ((c.address >>> E).setWidth 14).setWidth 64
    let B3 : BitVec 3 := c.B.extractLsb' 11 3
    let R3 := B3 - 1
    let R : BitVec 64 := R3.setWidth 64 <<< (cCapMantissaWidth - 3)
    let diff : BitVec 64 := ((R - aMid).setWidth 14).setWidth 64
    -- wraps around when the difference is zero
    let diff1 := diff - 1
    if iTop = 0 then iMid < diff1
    else if iTop = -1 then diff ≤ iMid ∧ R ≠ aMid
    else false

/-- `setCapOffset`: the capability with the offset set, and whether it is representable. -/
def setCapOffset (c : Capability) (offset : BitVec 64) : Capability × Bool :=
  let base := c.getBase
  ({ c with address := base + offset }, c.fastRepCheck (base + offset - c.address))

/-- `incCapOffset`: the address moves by the offset, and the fast check says whether the bounds are surely
kept. -/
def incCapOffset (c : Capability) (delta : BitVec 64) : Capability × Bool :=
  ({ c with address := c.address + delta }, c.fastRepCheck delta)

/-- `setCapAddr`: the address is replaced, and the bounds before and after are compared in full. -/
def setCapAddr (c : Capability) (addr : BitVec 64) : Capability × Bool :=
  let c' := { c with address := addr }
  (c', c.getCapBounds = c'.getCapBounds)

/-- `setCapAddrChecked`: the tag is lost if the bounds have changed, or if the capability is sealed. -/
def setCapAddrChecked (c : Capability) (addr : BitVec 64) : Capability :=
  let r := c.setCapAddr addr
  r.1.clearTagIf (!r.2 || r.1.isSealed)

end Capability

end RiscvVp
