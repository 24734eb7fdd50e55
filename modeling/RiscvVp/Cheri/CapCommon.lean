import RiscvVp.Cheri.Capability

/-!
# Common operations on capabilities

`core/common_cheriv9/cheri_cap_common.h` and `core/common_cheriv9/cheri_sys_regs.h`: the lengths that
can be represented, a capability as an integer program counter, and the legal values of the
trap-vector capabilities.  Relocation of the program counter is compiled out
(`have_pcc_relocation()` is false), so only the other branch is here.
-/

namespace RiscvVp

/-! ### Representable lengths -/

/-- `cInternalETakeBits`: the bits of each bound that an internal exponent takes. -/
def cInternalETakeBits : ℕ := 3

/-- `getRepresentableAlignmentMask`: the mask that a base has to be aligned with so that a capability of
this length has exact bounds. -/
def getRepresentableAlignmentMask (len : BitVec 64) : BitVec 64 :=
  let c := (cDefaultCap.setCapBounds 0 (len.setWidth 128)).1
  let e := if c.E.toNat < cCapMaxE then c.E.toNat else cCapMaxE
  let ePrime := if c.internalE then e + cInternalETakeBits else 0
  if ePrime = 0 then 0xFFFFFFFFFFFFFFFF else ((1#64 <<< (64 - ePrime)) - 1) <<< ePrime

/-- `getRepresentableLength`: the length rounded up to one that is represented exactly. -/
def getRepresentableLength (len : BitVec 64) : BitVec 64 :=
  let m := getRepresentableAlignmentMask len
  (len + ~~~m) &&& m

/-! ### Program counters -/

/-- `capToIntegerPC`: the program counter of a capability is its address. -/
def capToIntegerPC (cap : Capability) : BitVec 64 := cap.address

/-- `updateCapWithIntegerPC`: another program counter; the tag is lost where the bounds do not allow for it,
or the capability is sealed. -/
def updateCapWithIntegerPC (cap : Capability) (pc : BitVec 64) : Capability :=
  cap.setCapAddrChecked pc

/-! ### Trap vectors -/

/-- `TrapVectorMode`: how the address of a handler is found from the trap vector. -/
inductive TrapVectorMode
  | direct
  | vector
  | reserved
  deriving DecidableEq, Repr

/-- The field `mode` of a trap vector. -/
def tvecMode (bits : BitVec 64) : BitVec 2 := bits.setWidth 2

/-- `trapVectorModeOfBits`: the low two bits of the vector. -/
def trapVectorModeOfBits (bits : BitVec 2) : TrapVectorMode :=
  match bits.toNat with
  | 0 => .direct
  | 1 => .vector
  | _ => .reserved

/-- `updateMode`: the mode is replaced, and the address kept. -/
def updateMode (o : BitVec 64) (mode : BitVec 2) : BitVec 64 := o.extractLsb' 2 62 ++ mode

/-- `legalizeTvec`: a reserved mode is replaced by the old one. -/
def legalizeTvec (o v : BitVec 64) : BitVec 64 :=
  match trapVectorModeOfBits (tvecMode v) with
  | .direct => v
  | .vector => v
  | .reserved => updateMode v (tvecMode o)

/-- `legalizeTcc`: a trap vector that is to be written, with its address made one that the hart can go to. -/
def legalizeTcc (o v : Capability) : Capability :=
  updateCapWithIntegerPC v (legalizeTvec (capToIntegerPC o) (capToIntegerPC v))

end RiscvVp
