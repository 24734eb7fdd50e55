import RiscvVp.Cheri.Capability

/-!
# Capability instructions

The cases `C_SEAL` to `C_C_SEAL` of `exec_steps` in `core/rv64_cheriv9/iss_ctemplate.cpp` that make a
capability out of capabilities, each as a function from the values of its source registers to the
value of its destination register.
-/

namespace RiscvVp

/-! ### Sealing -/

/-- `C_SEAL`: the type is the address of `cs2`, which must have the permission to seal and the type within
its bounds. -/
def cSeal (cs1 cs2 : Capability) : Capability :=
  let cursor := cs2.address
  let base := cs2.getBase
  let top := cs2.getTop
  let permitted := cs2.tag && !cs2.isSealed && cs2.permitSeal && base ≤ cursor &&
    cursor.setWidth 128 < top && cursor.toNat ≤ cCapMaxOType
  (cs1.clearTagIfSealed.sealCap (cursor.setWidth 32)).clearTagIf (!permitted)

/-- `C_UNSEAL`: the inverse, with the permission to unseal, and without `global` unless both have it. -/
def cUnseal (cs1 cs2 : Capability) : Capability :=
  let cursor := cs2.address
  let base := cs2.getBase
  let top := cs2.getTop
  let permitted := cs2.tag && cs1.isSealed && !cs2.isSealed && !cs1.hasReservedOType &&
    cursor = cs1.otype.setWidth 64 && cs2.permitUnseal && base ≤ cursor &&
    cursor.setWidth 128 ≤ top
  ({ cs1.unsealCap with global := cs1.global && cs2.global }).clearTagIf (!permitted)

/-- `C_C_SEAL`: seal conditionally, and pass an untagged or already sealed operand through. -/
def cCSeal (cs1 cs2 : Capability) : Capability :=
  let cursor := cs2.address
  let base := cs2.getBase
  let top := cs2.getTop
  let passthrough := !cs2.tag || cs1.isSealed || cursor < base || top ≤ cursor.setWidth 128 ||
    cursor = -1
  if passthrough then cs1
  else
    let permitted := !cs2.isSealed && cs2.permitSeal && cursor.toNat ≤ cCapMaxOType
    (cs1.sealCap (cursor.setWidth 32)).clearTagIf (!permitted)

/-! ### Permissions, flags and addresses -/

/-- `C_AND_PERM`: the permissions of both operands, and no tag if the capability is sealed. -/
def cAndPerm (cs1 : Capability) (rs2 : BitVec 64) : Capability :=
  let mask : BitVec 32 := (rs2.setWidth cCapPermsWidth).setWidth 32
  cs1.clearTagIfSealed.setCapPerms (cs1.getCapPerms &&& mask)

/-- `C_SET_FLAGS`: the one flag there is, and no tag if the capability is sealed. -/
def cSetFlags (cs1 : Capability) (rs2 : BitVec 64) : Capability :=
  cs1.clearTagIfSealed.setFlags ((rs2.setWidth 1).setWidth 8)

/-- `C_SET_OFFSET`: the address relative to the base, and no tag where it cannot be represented. -/
def cSetOffset (cs1 : Capability) (rs2 : BitVec 64) : Capability :=
  let r := cs1.clearTagIfSealed.setCapOffset rs2
  r.1.clearTagIf (!r.2)

/-- `C_SET_ADDR`: the address itself, and no tag where it cannot be represented. -/
def cSetAddr (cs1 : Capability) (rs2 : BitVec 64) : Capability :=
  let r := cs1.clearTagIfSealed.setCapAddr rs2
  r.1.clearTagIf (!r.2)

/-- `C_INC_OFFSET`, and `C_INC_OFFSET_IMM` with the immediate in place of the register. -/
def cIncOffset (cs1 : Capability) (delta : BitVec 64) : Capability :=
  let r := cs1.clearTagIfSealed.incCapOffset delta
  r.1.clearTagIf (!r.2)

/-- `C_INC_OFFSET_IMM`: the offset is raised by a signed immediate. -/
def cIncOffsetImm (cs1 : Capability) (imm : BitVec 12) : Capability :=
  cIncOffset cs1 (imm.signExtend 64)

/-- `C_FROM_PTR`, from the authority (the default data capability when register zero is named): a
null pointer gives the null capability. -/
def cFromPtr (cs1 : Capability) (rs2 : BitVec 64) : Capability :=
  if rs2 = 0 then cNullCap
  else
    let r := cs1.clearTagIfSealed.setCapOffset rs2
    r.1.clearTagIf (!r.2)

/-! ### Bounds -/

/-- `C_SET_BOUNDS`: from the address on, rounded outwards if need be, and no tag where the range is not
within the old one. -/
def cSetBounds (cs1 : Capability) (rs2 : BitVec 64) : Capability :=
  let newBase := cs1.address
  let newTop := newBase.setWidth 128 + rs2.setWidth 128
  let inBounds := cs1.inCapBounds newBase rs2
  (cs1.clearTagIfSealed.setCapBounds newBase newTop).1.clearTagIf (!inBounds)

/-- `C_SET_BOUNDS_EXACT`: likewise, and no tag either where the bounds had to be rounded. -/
def cSetBoundsExact (cs1 : Capability) (rs2 : BitVec 64) : Capability :=
  let newBase := cs1.address
  let newTop := newBase.setWidth 128 + rs2.setWidth 128
  let inBounds := cs1.inCapBounds newBase rs2
  let r := cs1.clearTagIfSealed.setCapBounds newBase newTop
  r.1.clearTagIf (!(inBounds && r.2))

/-- `C_SET_BOUNDS_IMM`: the length is an unsigned immediate. -/
def cSetBoundsImm (cs1 : Capability) (imm : BitVec 12) : Capability :=
  cSetBounds cs1 (imm.setWidth 64)

/-! ### Building capabilities -/

/-- The authority of `C_BUILD_CAP`: register zero stands for the default data capability. -/
def buildCapAuthority (ddc : Capability) (regs : BitVec 5 → Capability) (rs1 : BitVec 5) :
    Capability := if rs1 = 0 then ddc else regs rs1

/-- The request of `C_BUILD_CAP`: `cs2` with the tag set, and unsealed unless it is a sentry. -/
def buildCapRequest (cs2 : Capability) : Capability :=
  let requested := { cs2 with tag := true }
  if requested.otype = cOtypeSentryUnsigned then requested else requested.unsealCap

/-- `subset` in `C_BUILD_CAP`: bounds within those of the authority, and permissions compared as the source
does it. -/
def buildCapSubset (authority requested : Capability) : Bool :=
  let authorityBase := authority.getBase
  let authorityTop := authority.getTop
  let requestedBase := requested.getBase
  let requestedTop := requested.getTop
  let authorityPerms := authority.getCapPerms
  let requestedPerms := requested.getCapPerms
  -- `requestedPerms && authorityPerms` is a logical conjunction: it is one or zero
  let bothPerms : BitVec 32 := if requestedPerms ≠ 0 ∧ authorityPerms ≠ 0 then 1 else 0
  authorityBase ≤ requestedBase && requestedTop ≤ authorityTop &&
    requestedBase.setWidth 128 ≤ requestedTop && bothPerms = requestedPerms

/-- The authority in `C_BUILD_CAP` after it was given the bounds, the offset, the permissions, the
flags and the object type of the request, and whether the bounds are exact. -/
def buildCapRebuild (authority requested : Capability) : Capability × Bool :=
  let r := authority.clearTagIfSealed.setCapBounds requested.getBase requested.getTop
  let authority := (r.1.setCapOffset requested.getOffset).1
  let authority := (authority.setCapPerms requested.getCapPerms).setFlags requested.getFlags
  (if requested.otype = cOtypeSentryUnsigned then
      authority.sealCap (cOtypeSentryUnsigned.setWidth 32) else authority,
    r.2)

/-- `C_BUILD_CAP`, from the authority and the pattern that is asked for; `none` when the assertion
fails. -/
def cBuildCap (cs1 cs2 : Capability) : Option Capability :=
  let requested := buildCapRequest cs2
  let r := buildCapRebuild cs1 requested
  let derivable : Bool := r.1 = requested
  if derivable && !r.2 then none
  else if buildCapSubset cs1 requested && derivable then some r.1
  else some requested.clearTag

end RiscvVp
