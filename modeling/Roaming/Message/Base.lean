import Roaming.Message.Record

/-!
# The parts that all messages share

The base fields of every request and answer, and the result block of every answer.
-/

set_option autoImplicit false
set_option relaxedAutoImplicit false

namespace Roaming

/-- Identifies one request and its answer. -/
abbrev TransactionId := UInt32

/-- The metadata of a message. -/
structure Base where
  protocolVersion : String := ""
  senderID : String := ""
  receiverID : String := ""
  transactionID : TransactionId := 0
  messageType : Option Tag := none
  senderNSID : Option String := none
  receiverNSID : Option String := none

namespace Base

/-- The base fields as a record. -/
def schema : Schema where
  title := "BasePayload"
  fields := [⟨"ProtocolVersion", .label⟩, ⟨"SenderID", .label⟩, ⟨"ReceiverID", .label⟩,
    ⟨"TransactionID", .transaction⟩, ⟨"MessageType", .tag⟩, ⟨"SenderNSID", .text⟩,
    ⟨"ReceiverNSID", .text⟩]

/-- The base with the given row. -/
def ofRow (r : Row schema.fields) : Base :=
  let (version, sender, receiver, id, type, senderNS, receiverNS, ()) := r
  ⟨version, sender, receiver, id, type, senderNS, receiverNS⟩

/-- The row of a base. -/
def toRow (b : Base) : Row schema.fields :=
  (b.protocolVersion, b.senderID, b.receiverID, b.transactionID, b.messageType, b.senderNSID,
    b.receiverNSID, ())

end Base

/-- The outcome that an answer reports. -/
structure Result where
  code : ResultCode := .success
  description : String := ""

namespace Result

/-- The result block as a record. -/
def schema : Schema where
  title := "ResultPayload"
  fields := [⟨"ResultCode", .code⟩, ⟨"Description", .label⟩]

/-- The result with the given row. -/
def ofRow (r : Row schema.fields) : Result :=
  let (code, description, ()) := r
  ⟨code, description⟩

/-- The row of a result. -/
def toRow (r : Result) : Row schema.fields :=
  (r.code, r.description, ())

/-- The result of an answer that has no result block: not a success. -/
def missing : Result := ⟨.ofText "", ""⟩

/-- The result with the given code and description. -/
def failure (code description : String) : Result := ⟨.ofText code, description⟩

end Result

end Roaming
