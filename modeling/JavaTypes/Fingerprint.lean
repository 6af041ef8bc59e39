import JavaTypes.Types

/-!
# Fingerprints

A fingerprint is the sequence of numbers and texts that a hash of a type or element is computed
from. Equal types have equal fingerprints, so types can be looked for among those with the same
fingerprint only.

The fingerprint of a type goes four levels deep. It leaves out annotations and enclosing types, and
does not tell the two bounds of a wildcard apart.
-/

namespace JavaTypes

inductive Mark
  | number (n : Nat)
  | text (s : String)
  deriving DecidableEq, Repr

/-- What a hash is computed from. -/
abbrev Fingerprint : Type :=
  List Mark

/-- The fingerprints of several types, one after the other. -/
def Fingerprint.concat (f : TypeId → Build Fingerprint) : List TypeId → Build Fingerprint
  | [] => return []
  | t :: ts => do
      let first ← f t
      let rest ← Fingerprint.concat f ts
      return first ++ rest

/-- The fingerprint of an element: its kind and simple name. -/
def elementFingerprint (e : ElementId) : Build Fingerprint := do
  let n ← elementNode e
  return [.number n.kind.code, .text n.simpleName]

def elementFingerprint? : Option ElementId → Build Fingerprint
  | some e => elementFingerprint e
  | none => return []

/-- The fingerprint of a type to a depth. -/
def typeFingerprintTo : Nat → TypeId → Build Fingerprint
  | 0, t => do return [.number (← typeKind t).code]
  | depth + 1, t => do
      let n ← typeNode t
      let rest : Build Fingerprint :=
        match n.shape with
        | .array c => Fingerprint.concat (typeFingerprintTo depth) c.toList
        | .declared d => do
            let element ← elementFingerprint? d.element
            let arguments ← Fingerprint.concat (typeFingerprintTo depth) d.arguments
            return element ++ .number d.arguments.length :: arguments
        | .error e => do return (← elementFingerprint? e) ++ [.number 0]
        | .typeVar v => elementFingerprint? v.element
        | .wildcard w =>
            Fingerprint.concat (typeFingerprintTo depth) (w.upper.toList ++ w.lower.toList)
        | .intersection bs | .union bs => Fingerprint.concat (typeFingerprintTo depth) bs
        | _ => return []
      return .number n.kind.code :: (← rest)

def typeFingerprint (t : TypeId) : Build Fingerprint :=
  typeFingerprintTo 4 t

end JavaTypes
