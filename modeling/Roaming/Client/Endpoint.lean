import Roaming.Client.Files
import Roaming.Client.Settings
import Roaming.Tls.Der

/-!
# Endpoints

The endpoint of a peer is its URL and the certificates and key that the settings name. They are read
when the endpoint is made, in a fixed order, and the first fault is reported.
-/

set_option autoImplicit false
set_option relaxedAutoImplicit false

namespace Roaming

open Roaming.Text (Bytes)
open Roaming.Tls

/-- Where requests are posted. -/
structure Endpoint where
  server : String
  /-- Whether the client shows a certificate of its own. -/
  mutualTls : Bool
deriving DecidableEq, Repr

namespace Endpoint

/-- The content of a file with certificates or a key. -/
def readFile (files : Files) (label path : String) : Except Failure Bytes :=
  match files.read path with
  | .ok bytes => .ok bytes
  | .error fault => .error (.tls s!"read {label} {path} error: {fault.message}")

/-- The certificates in the file `path`, at least one. -/
def readAuthorities (files : Files) (path : String) : Except Failure (List Bytes) := do
  let file ← readFile files "ca cert" path
  match sections? file with
  | none => throw (.tls "append ca cert to pool error: builder error")
  | some sections =>
    match sections.filter (·.label == .certificate) with
    | [] => throw (.tls s!"no certificates found in {path}")
    | certificates => return certificates.map (·.content)

/-- The certificates and the key that a client shows. -/
structure Identity where
  certificates : List Bytes
  key : Section

/-- The identity in a PEM text: its certificates, and the last of its keys. -/
def identity? (text : Bytes) : Option Identity := do
  let sections ← sections? text
  if sections.any (·.label == .foreign) then none
  else
    let key ← (sections.filter (·.label.isKey)).getLast?
    match sections.filter (·.label == .certificate) with
    | [] => none
    | certificates => return ⟨certificates.map (·.content), key⟩

/-- The identity in the files of a certificate and of its key, which are read as one text. -/
def readIdentity (files : Files) (cert key : String) : Except Failure Identity := do
  let certText ← readFile files "tls cert" cert
  let keyText ← readFile files "tls key" key
  match identity? (certText ++ 10 :: keyText) with
  | some identity => return identity
  | none => throw (.tls "load x509 keypair error: builder error")

/-- Whether an identity can be shown: its certificate and its key have the right shape. -/
def Identity.isUsable (i : Identity) : Bool :=
  i.certificates.all isCertificate && isPrivateKey i.key.label i.key.content

/-- Makes the endpoint that the settings describe. -/
def create (files : Files) (s : Settings) : Except Failure (Endpoint × Log) := do
  if s.server = "" then throw (.missingConfig "server")
  let authorities ← match s.caCert with
    | some path => readAuthorities files path
    | none => pure []
  let identity ← match s.tlsCert, s.tlsKey with
    | some cert, some key => some <$> readIdentity files cert key
    | none, none => pure none
    | _, _ => throw (.configConflict "tls_cert and tls_key must be set together")
  if authorities.all isCertificate && identity.all (·.isUsable) then
    return (⟨s.server, s.tlsCert.isSome⟩,
      [.info s!"http: transport ready for {s.server} (mtls: {s.tlsCert.isSome})"])
  else throw (.transport "http client build error: builder error")

end Endpoint

end Roaming
