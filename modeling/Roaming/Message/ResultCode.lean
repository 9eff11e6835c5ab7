/-!
# Result codes

Eighteen codes are known by name; any other text is kept as it came.
-/

set_option autoImplicit false
set_option relaxedAutoImplicit false

namespace Roaming

/-- The code of an answer's result block. -/
inductive ResultCode where
  | success
  | micFailed
  | joinReqFailed
  | noRoamingAgreement
  | devRoamingDisallowed
  | roamingActDisallowed
  | activationDisallowed
  | unknownDevEUI
  | unknownDevAddr
  | unknownSender
  | unknownReceiver
  | deferred
  | xmitFailed
  | invalidFPort
  | invalidProtocolVersion
  | staleDeviceProfile
  | malformedRequest
  | frameSizeError
  | other (code : String)
deriving DecidableEq, Repr

namespace ResultCode

/-- The codes known by name. -/
def known : List ResultCode :=
  [.success, .micFailed, .joinReqFailed, .noRoamingAgreement, .devRoamingDisallowed,
    .roamingActDisallowed, .activationDisallowed, .unknownDevEUI, .unknownDevAddr, .unknownSender,
    .unknownReceiver, .deferred, .xmitFailed, .invalidFPort, .invalidProtocolVersion,
    .staleDeviceProfile, .malformedRequest, .frameSizeError]

/-- The text of a code on the wire. -/
def text : ResultCode → String
  | .success => "Success"
  | .micFailed => "MICFailed"
  | .joinReqFailed => "JoinReqFailed"
  | .noRoamingAgreement => "NoRoamingAgreement"
  | .devRoamingDisallowed => "DevRoamingDisallowed"
  | .roamingActDisallowed => "RoamingActDisallowed"
  | .activationDisallowed => "ActivationDisallowed"
  | .unknownDevEUI => "UnknownDevEUI"
  | .unknownDevAddr => "UnknownDevAddr"
  | .unknownSender => "UnknownSender"
  | .unknownReceiver => "UnknownReceiver"
  | .deferred => "Deferred"
  | .xmitFailed => "XmitFailed"
  | .invalidFPort => "InvalidFPort"
  | .invalidProtocolVersion => "InvalidProtocolVersion"
  | .staleDeviceProfile => "StaleDeviceProfile"
  | .malformedRequest => "MalformedRequest"
  | .frameSizeError => "FrameSizeError"
  | .other code => code

/-- The code with the given text: a known one if its text agrees letter for letter. -/
def ofText (s : String) : ResultCode :=
  (known.find? (fun c => c.text == s)).getD (.other s)

/-- Whether the code reports success. -/
def isSuccess (c : ResultCode) : Bool :=
  c == .success

/-- What a code turns into as a text: another one its own, a known one its name. -/
def toText : ResultCode → String
  | .other code => code
  | c => c.text

instance : ToString ResultCode where
  toString := text

end ResultCode

end Roaming
