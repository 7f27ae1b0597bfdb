namespace Unwinder

/-- What the CIE/FDE parser found wrong. -/
inductive DwarfParseErrorKind where
  | truncated (needed len : Nat)
  | leb128Overflow
  | entryLengthOverflow
  | omittedPointerEncoding
  | unsupportedPointerEncoding (encoding : UInt8)
  | indirectPointerRequiresDereference (encoding : UInt8)
  | unsupportedPointerApplication (encoding : UInt8)
  | badCieId (cieId : UInt64)
  | unsupportedCieVersion (version : UInt8)
  | unsupportedCieAddressSize (addressSize segmentSize : UInt8)
  | unterminatedAugmentationString
  | unsupportedAugmentation (byte : UInt8)
  | unsupportedNonZAugmentation
  | fdeCiePointerIsZero
deriving DecidableEq

structure DwarfParseError where
  offset : Nat
  kind : DwarfParseErrorKind
deriving DecidableEq

inductive EhFrameHdrError where
  | fixedHeaderTruncated (len : Nat)
  | unsupportedVersion (version : UInt8)
  | unsupportedEhFramePtrEncoding (encoding : UInt8)
  | ehFramePtrTruncated (offset size len : Nat)
  | unsupportedFdeCountEncoding (encoding : UInt8)
  | fdeCountTruncated (offset size len : Nat)
  | unsupportedTableEncoding (encoding : UInt8)
  | tableTruncated (offset : Nat) (entryCount : UInt64) (len : Nat)
deriving DecidableEq

/-- Why no proc-info could be built for an address. -/
inductive UnwindInfoError where
  | moduleNotFound (ip : UInt64)
  | missingLocalUnwindSections (module : String) (ip : UInt64)
  | functionCachePoisoned (module : String)
  | ehFrameHeaderLookupMiss (module : String) (ip : UInt64)
  | invalidEhFrameHdr (module : String) (source : EhFrameHdrError)
  | fdeOffsetBeforeEhFrame (module : String) (fdeAvma ehFrameAvma : UInt64)
  | fdeOffsetOutOfRange (module : String) (fdeOffset ehFrameLen : Nat)
  | fdeLengthPrefixTruncated (module : String) (fdeOffset ehFrameLen : Nat)
  | ciePointerTruncated (module : String) (ciePtrOffset ehFrameLen : Nat)
  | ciePointerUnderflow (module : String) (ciePtrOffset : Nat) (ciePtr : UInt64)
  | cieParse (module : String) (cieOffset : Nat) (source : DwarfParseError)
  | fdeParse (module : String) (fdeOffset : Nat) (source : DwarfParseError)
deriving DecidableEq

/-- The libunwind operation that failed. -/
inductive LibunwindPhase where
  | initRemote
  | step
  | getInstructionPointer
  | getRegister (reg : Int)
deriving DecidableEq

inductive LibunwindErrorCode where
  | unspecified
  | noMemory
  | badRegister
  | readOnlyRegister
  | stopUnwind
  | invalidInstructionPointer
  | badFrame
  | invalidOperation
  | badVersion
  | noInfo
  | unknown (code : Int)
deriving DecidableEq

namespace Ffi

def UNW_ESUCCESS : Int := 0
def UNW_EUNSPEC : Int := 1
def UNW_ENOMEM : Int := 2
def UNW_EBADREG : Int := 3
def UNW_EREADONLYREG : Int := 4
def UNW_ESTOPUNWIND : Int := 5
def UNW_EINVALIDIP : Int := 6
def UNW_EBADFRAME : Int := 7
def UNW_EINVAL : Int := 8
def UNW_EBADVERSION : Int := 9
def UNW_ENOINFO : Int := 10

def UNW_INFO_FORMAT_REMOTE_TABLE : Int := 2

end Ffi

open Ffi in
def LibunwindErrorCode.fromStatus (status : Int) : LibunwindErrorCode :=
  let code : Int := status.natAbs
  if code = UNW_EUNSPEC then .unspecified
  else if code = UNW_ENOMEM then .noMemory
  else if code = UNW_EBADREG then .badRegister
  else if code = UNW_EREADONLYREG then .readOnlyRegister
  else if code = UNW_ESTOPUNWIND then .stopUnwind
  else if code = UNW_EINVALIDIP then .invalidInstructionPointer
  else if code = UNW_EBADFRAME then .badFrame
  else if code = UNW_EINVAL then .invalidOperation
  else if code = UNW_EBADVERSION then .badVersion
  else if code = UNW_ENOINFO then .noInfo
  else .unknown code

structure LibunwindError where
  phase : LibunwindPhase
  code : LibunwindErrorCode
  rawStatus : Int
deriving DecidableEq

def LibunwindError.new (phase : LibunwindPhase) (rawStatus : Int) : LibunwindError :=
  ⟨phase, .fromStatus rawStatus, rawStatus⟩

/-- The errors of one unwinding step. -/
inductive Error where
  | couldNotReadStack (addr : UInt64)
  | framepointerUnwindingMovedBackwards
  | didNotAdvance
  | integerOverflow
  | returnAddressIsNull
  | libunwind (err : LibunwindError)
  | unwindInfo (err : UnwindInfoError)
deriving DecidableEq

end Unwinder
