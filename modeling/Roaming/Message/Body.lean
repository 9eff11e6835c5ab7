import Roaming.Message.Base

/-!
# Bodies

The fields that each operation adds to its requests and answers. Metadata and key envelopes are kept
as the peer's own values.
-/

set_option autoImplicit false
set_option relaxedAutoImplicit false

namespace Roaming

/-- The body of a message with the given tag. -/
def Tag.body : Tag → Schema
  | ⟨.prStart, .request⟩ =>
    ⟨"PrStartReqBody", [⟨"PHYPayload", .text⟩, ⟨"ULMetaData", .value⟩]⟩
  | ⟨.prStart, .answer⟩ =>
    ⟨"PrStartAnsBody", [⟨"PHYPayload", .text⟩, ⟨"DevEUI", .text⟩, ⟨"Lifetime", .count⟩,
      ⟨"FNwkSIntKey", .value⟩, ⟨"NwkSKey", .value⟩, ⟨"FCntUp", .count⟩,
      ⟨"ServiceProfile", .value⟩, ⟨"DLMetaData", .value⟩]⟩
  | ⟨.prStop, .request⟩ => ⟨"PrStopReqBody", [⟨"DevEUI", .text⟩, ⟨"Lifetime", .count⟩]⟩
  | ⟨.prStop, .answer⟩ => ⟨"EmptyBody", []⟩
  | ⟨.xmitData, .request⟩ =>
    ⟨"XmitDataReqBody", [⟨"PHYPayload", .text⟩, ⟨"FRMPayload", .text⟩, ⟨"ULMetaData", .value⟩,
      ⟨"DLMetaData", .value⟩]⟩
  | ⟨.xmitData, .answer⟩ =>
    ⟨"XmitDataAnsBody", [⟨"DLFreq1", .frequency⟩, ⟨"DLFreq2", .frequency⟩]⟩
  | ⟨.profile, .request⟩ => ⟨"ProfileReqBody", [⟨"DevEUI", .text⟩]⟩
  | ⟨.profile, .answer⟩ =>
    ⟨"ProfileAnsBody", [⟨"DeviceProfile", .value⟩, ⟨"DeviceProfileTimestamp", .text⟩,
      ⟨"RoamingActivationType", .text⟩]⟩
  | ⟨.homeNS, .request⟩ => ⟨"HomeNsReqBody", [⟨"DevEUI", .text⟩]⟩
  | ⟨.homeNS, .answer⟩ => ⟨"HomeNsAnsBody", [⟨"HNetID", .text⟩]⟩

/-- The body of a message with the given tag, as content. -/
abbrev Body (t : Tag) : Type := Row t.body.fields

/-- No field of a body must be present. -/
theorem Tag.absent?_body_isSome (t : Tag) : (Row.absent? t.body.fields).isSome = true := by
  obtain ⟨op, d⟩ := t
  cases op <;> cases d <;> rfl

/-- The body all of whose fields are absent. -/
def Tag.emptyBody (t : Tag) : Body t :=
  (Row.absent? t.body.fields).get t.absent?_body_isSome

end Roaming
