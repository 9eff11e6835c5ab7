import Roaming.Failure
import Roaming.Message.Base
import Roaming.Text.Quoted

/-!
# Correlation keys

The answer to an asynchronous request is published on a key made from the key space that both sides
share, the request's tag and the transaction id. Neither part of a key space may be empty or hold
the delimiter, so that a key tells its parts.
-/

set_option autoImplicit false
set_option relaxedAutoImplicit false

namespace Roaming

/-- Whether a text can be a part of a key: not empty and without the delimiter. -/
def IsKeyPart (s : String) : Prop :=
  s ≠ "" ∧ ':' ∉ s.toList

instance (s : String) : Decidable (IsKeyPart s) :=
  inferInstanceAs (Decidable (_ ∧ _))

/-- The first two parts of every correlation key. -/
structure KeySpace where
  space : String
  component : String
  space_ok : IsKeyPart space
  component_ok : IsKeyPart component

/-- The refusal of a part of a key space. -/
def KeySpace.refusal (label part : String) : Failure :=
  .configConflict ("key " ++ label ++ " must be non-empty and must not contain ':' (got " ++
    Text.quoted part ++ ")")

/-- The key space with the given parts, if both can be parts of a key. -/
def KeySpace.make (space component : String) : Except Failure KeySpace :=
  if hs : IsKeyPart space then
    if hc : IsKeyPart component then .ok ⟨space, component, hs, hc⟩
    else .error (refusal "component" component)
  else .error (refusal "namespace" space)

/-- The customary key space. -/
def KeySpace.standard : KeySpace :=
  ⟨"lora", "backend", by decide +kernel, by decide +kernel⟩

instance : Inhabited KeySpace := ⟨KeySpace.standard⟩

/-- The channel on which an answer is published. -/
abbrev Key := String

/-- The key of a transaction. -/
def KeySpace.key (s : KeySpace) (t : Tag) (id : TransactionId) : Key :=
  s.space ++ ":" ++ s.component ++ ":async:" ++ t.name ++ ":" ++ toString id.toNat

end Roaming
