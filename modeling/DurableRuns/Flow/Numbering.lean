/-
# DurableRuns.Flow.Numbering -- how the numbers of nodes go on

The numbers of nodes are numbers of 64 bits, and each node gets the number after the highest
one so far.  The last of them, `2^64 - 1`, has none after it: a program that checks its
arithmetic stops there, one that does not goes on at zero.  All the numberings agree as long
as there is a next number.

What a program does is the same in both up to that point.  It is modelled over any numbering;
where none is named the arithmetic is checked.
-/

namespace DurableRuns

set_option autoImplicit false

/-- How the numbers of nodes go on. -/
class Numbering where
  /-- The number after a number. -/
  next : Nat → Nat
  /-- The program goes on after a number. -/
  HasNext : Nat → Prop
  next_eq {id : Nat} : id + 1 < UInt64.size → next id = id + 1
  hasNext {id : Nat} : id + 1 < UInt64.size → HasNext id

namespace Numbering

/-- The numbering of a program that stops where there is no next number. -/
instance checked : Numbering where
  next id := id + 1
  HasNext id := id + 1 < UInt64.size
  next_eq _ := rfl
  hasNext := id

/-- The numbering of a program that begins again at zero. -/
abbrev wrapping : Numbering where
  next id := (id + 1) % UInt64.size
  HasNext _ := True
  next_eq := Nat.mod_eq_of_lt
  hasNext _ := trivial

@[simp] theorem next_checked (id : Nat) : checked.next id = id + 1 := rfl

end Numbering
end DurableRuns
