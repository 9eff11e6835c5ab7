import Roaming.Exchange

/-!
# Settings of a client

The identities on both ends, the peer's endpoint and the rules for answers.
-/

set_option autoImplicit false
set_option relaxedAutoImplicit false

namespace Roaming

/-- The settings that a client is built from. -/
structure Settings where
  /-- Stamped on requests as their sender. -/
  sender : String
  /-- Stamped on requests as their receiver. -/
  receiver : String
  /-- Stamped on requests as their protocol version. -/
  version : String := "1.0"
  /-- The URL of the peer. -/
  server : String := ""
  /-- The file of the certificates that the peer's is checked with. -/
  caCert : Option String := none
  /-- The file of the client's own certificate. -/
  tlsCert : Option String := none
  /-- The file of the private key of that certificate. -/
  tlsKey : Option String := none
  /-- How long an async request waits for its answer. -/
  timeout : Option Duration := none
  /-- The first parts of every correlation key. -/
  keys : KeySpace := .standard
  /-- What an async request does when its POST fails. -/
  policy : SendPolicy := .failFast

/-- Whether anything is set that describes an endpoint. -/
def Settings.describesEndpoint (s : Settings) : Bool :=
  s.server ≠ "" || s.caCert.isSome || s.tlsCert.isSome || s.tlsKey.isSome

end Roaming
