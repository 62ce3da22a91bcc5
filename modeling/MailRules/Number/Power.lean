/-!
Powers of two and of ten. They are the powers of core's natural numbers, whatever other power
operation is in scope where they are used.
-/
namespace MailRules.Number

abbrev twoTo (exponent : Nat) : Nat := Nat.pow 2 exponent

abbrev tenTo (exponent : Nat) : Nat := Nat.pow 10 exponent

end MailRules.Number
