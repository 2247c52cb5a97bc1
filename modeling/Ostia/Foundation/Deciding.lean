import Mathlib.Data.List.Basic

/-!
# Deciding statements about the members of a list

A statement about all members of a list is decided by going through the list, also
where the type of the members is finite and could be gone through instead.
-/

namespace Ostia
namespace Foundation

instance (priority := 2000) decidableForallMem {A : Type*} {P : A -> Prop} [DecidablePred P]
    (xs : List A) : Decidable (forall x, x ∈ xs -> P x) :=
  List.decidableBAll P xs

end Foundation
end Ostia
