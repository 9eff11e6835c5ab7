import Roaming.Tls.Pem

/-!
# The shape of certificates and private keys

A certificate or a private key is a tree of elements, each with a tag, a length and a content. What
is checked here is that an element has the parts that its kind must have, in their order, and that
nothing is left over.
-/

set_option autoImplicit false
set_option relaxedAutoImplicit false

namespace Roaming.Tls

open Roaming.Text (Bytes)

/-- One element: its tag and its content. -/
structure Element where
  tag : UInt8
  content : Bytes

/-- The number written by the bytes, most significant first. -/
def bigEndian (bytes : Bytes) : Nat :=
  bytes.foldl (fun n b => n * 256 + b.toNat) 0

/-- The length of a content and the bytes behind it. -/
def readLength : Bytes → Option (Nat × Bytes)
  | [] => none
  | b :: rest =>
    let n := b.toNat
    if n < 128 then some (n, rest)
    else
      let places := n - 128
      if 1 ≤ places ∧ places ≤ 3 ∧ places ≤ rest.length then
        some (bigEndian (rest.take places), rest.drop places)
      else none

/-- The first element and the bytes behind it. -/
def readElement : Bytes → Option (Element × Bytes)
  | [] => none
  | tag :: rest => do
    let (n, rest) ← readLength rest
    if n ≤ rest.length then return (⟨tag, rest.take n⟩, rest.drop n) else none

/-- The elements of a content, at most `fuel` of them. -/
def elementsFrom : Nat → Bytes → Option (List Element)
  | _, [] => some []
  | 0, _ :: _ => none
  | fuel + 1, bytes => do
    let (e, rest) ← readElement bytes
    return e :: (← elementsFrom fuel rest)

/-- The elements of a content. -/
def elements (bytes : Bytes) : Option (List Element) :=
  elementsFrom bytes.length bytes

/-- Whether elements start with the given tags. -/
def startsWith (es : List Element) (tags : List UInt8) : Bool :=
  tags.isPrefixOf (es.map (·.tag))

/-- The parts of a sequence that is all there is. -/
def sequence? (bytes : Bytes) : Option (List Element) :=
  match elements bytes with
  | some [e] => if e.tag = 0x30 then elements e.content else none
  | _ => none

/-- Whether the bytes have the shape of a certificate: the signed part, the algorithm and the
signature; the signed part holds the version, a serial number, the algorithm, the issuer, the
validity, the subject and the public key. -/
def isCertificate (bytes : Bytes) : Bool :=
  match sequence? bytes with
  | some [signed, algorithm, signature] =>
    signed.tag == 0x30 && algorithm.tag == 0x30 && signature.tag == 0x03 &&
      match elements signed.content with
      | some es => startsWith es [0xA0, 0x02, 0x30, 0x30, 0x30, 0x30, 0x30]
      | none => false
  | _ => false

/-- Whether the bytes have the shape of a private key with the given label. -/
def isPrivateKey (label : Label) (bytes : Bytes) : Bool :=
  match sequence? bytes with
  | none => false
  | some es =>
    match label with
    | .pkcs1Key => startsWith es (List.replicate 9 0x02)
    | .pkcs8Key => startsWith es [0x02, 0x30, 0x04]
    | .sec1Key => startsWith es [0x02, 0x04]
    | _ => false

end Roaming.Tls
